/-!
# Decimal digits

The value of a run of digits, and the unsigned integers with an upper bound that name CRS codes
and dimensions.
-/

namespace FilterEncoding.Number

/-- The value of a run of decimal digits, the most significant one first. -/
def digitsValue (digits : List Char) : Nat :=
  digits.foldl (fun value d => 10 * value + (d.toNat - '0'.toNat)) 0

/-- Drop one plus sign in front. -/
def dropPlus : List Char → List Char
  | '+' :: cs => cs
  | cs => cs

/-- An unsigned integer: an optional plus sign and at least one digit, with a value up to
`bound`.  Leading zeros are allowed, blanks are not. -/
def unsigned? (bound : Nat) (text : String) : Option Nat :=
  let digits := dropPlus text.toList
  if !digits.isEmpty && digits.all Char.isDigit && digitsValue digits ≤ bound then
    some (digitsValue digits)
  else none

theorem digitsValue_append_one (digits : List Char) (d : Char) :
    digitsValue (digits ++ [d]) = 10 * digitsValue digits + (d.toNat - '0'.toNat) := by
  simp [digitsValue, List.foldl_append]

theorem unsigned?_le {bound value : Nat} {text : String} (h : unsigned? bound text = some value) :
    value ≤ bound := by
  rw [unsigned?, Option.ite_none_right_eq_some, Bool.and_eq_true, decide_eq_true_eq] at h
  exact Option.some.inj h.2 ▸ h.1.2

end FilterEncoding.Number
