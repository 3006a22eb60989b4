import FilterEncoding.Proofs.Chars.Trim
import FilterEncoding.Proofs.Number.Characters
import FilterEncoding.Proofs.Number.Nearest

/-!
# The values of numerals

The number that a text starts with is a number: it may be infinite, but it always equals itself
(`leadingValue_beq_self`).  Blanks around the text make no difference to it (`leadingValue_trim`).
-/

namespace FilterEncoding.Number

/-! ## Numbers and what is none -/

theorem beq_self_of_isNaN {x : Float} (h : x.isNaN = false) : (x == x) = true := by
  rw [Float.isNaN_eq_decide_eq_nan, decide_eq_false_iff_not] at h
  exact Float.beq_self_iff.2 h

/-- The number that a text starts with equals itself. -/
theorem leadingValue_beq_self (text : String) :
    (leadingValue text == leadingValue text) = true := by
  refine beq_self_of_isNaN ?_
  unfold leadingValue
  split
  · exact (isNearest_value _).isNaN_eq_false
  · decide +kernel

/-! ## Blanks behind a numeral -/

/-- The characters of numbers lie between `+` and `z`. -/
theorem bounds_of_isNumberChar {c : Char} (h : isNumberChar c = true) :
    43 ≤ c.toNat ∧ c.toNat ≤ 122 := by
  simp only [isNumberChar, Char.isAlphanum, Char.isAlpha, Char.isUpper, Char.isLower, Char.isDigit,
    Bool.or_eq_true, Bool.and_eq_true, decide_eq_true_eq, beq_iff_eq, ge_iff_le,
    UInt32.le_iff_toNat_le] at h
  have hval : c.val.toNat = c.toNat := rfl
  rcases h with ((((⟨hlow, hhigh⟩ | ⟨hlow, hhigh⟩) | ⟨hlow, hhigh⟩) | rfl) | rfl) | rfl
  · simp at hlow hhigh
    omega
  · simp at hlow hhigh
    omega
  · simp at hlow hhigh
    omega
  all_goals decide

theorem isNumberChar_of_isBlank {c : Char} (h : Chars.isBlank c = true) :
    isNumberChar c = false := by
  rw [← Bool.not_eq_true]
  intro hnumber
  have hbounds := bounds_of_isNumberChar hnumber
  rw [Chars.isBlank_eq_false_of_bounds (by omega)] at h
  cases h

section Tail

variable {tail : List Char} (htail : ∀ c ∈ tail.head?, isNumberChar c = false)
include htail

/-- The tail does not start with a character that numbers are written with. -/
theorem head_tail_ne {c d : Char} {more : List Char} (heq : tail = c :: more)
    (hd : isNumberChar d = true) : c ≠ d := by
  rintro rfl
  have hc : isNumberChar c = false := htail c (by rw [heq]; rfl)
  rw [hd] at hc
  cases hc

theorem takeWhile_append_tail (cs : List Char) :
    (cs ++ tail).takeWhile Char.isDigit = cs.takeWhile Char.isDigit ∧
      (cs ++ tail).dropWhile Char.isDigit = cs.dropWhile Char.isDigit ++ tail := by
  induction cs with
  | nil =>
      cases tail with
      | nil => exact ⟨rfl, rfl⟩
      | cons c more =>
          have hc : c.isDigit = false := by
            rw [← Bool.not_eq_true]
            exact fun hdigit => head_tail_ne htail rfl (isNumberChar_of_isDigit hdigit) rfl
          simp [hc]
  | cons c cs ih => by_cases hc : c.isDigit = true <;> simp [hc, ih]

theorem scanSign_append_tail (cs : List Char) :
    scanSign (cs ++ tail) = ((scanSign cs).1, (scanSign cs).2 ++ tail) := by
  cases cs with
  | nil =>
      cases tail with
      | nil => rfl
      | cons c more =>
          have hplus : c ≠ '+' := head_tail_ne htail rfl rfl
          have hminus : c ≠ '-' := head_tail_ne htail rfl rfl
          simp [scanSign, hplus, hminus]
  | cons c cs => by_cases hc : c = '+' ∨ c = '-' <;> simp [scanSign, hc]

theorem scanFraction_append_tail (whole cs : List Char) :
    scanFraction whole (cs ++ tail) =
      ((scanFraction whole cs).1, (scanFraction whole cs).2 ++ tail) := by
  cases cs with
  | nil =>
      cases tail with
      | nil => rfl
      | cons c more =>
          have hpoint : c ≠ '.' := head_tail_ne htail rfl rfl
          simp [scanFraction, hpoint]
  | cons c cs =>
      obtain ⟨htake, hdrop⟩ := takeWhile_append_tail htail cs
      rw [List.cons_append, scanFraction, scanFraction, htake, hdrop]
      split <;> rfl

theorem scanExponent_append_tail (cs : List Char) :
    scanExponent (cs ++ tail) = ((scanExponent cs).1, (scanExponent cs).2 ++ tail) := by
  cases cs with
  | nil =>
      cases tail with
      | nil => rfl
      | cons c more =>
          have hsmall : c ≠ 'e' := head_tail_ne htail rfl rfl
          have hcapital : c ≠ 'E' := head_tail_ne htail rfl rfl
          simp [scanExponent, hsmall, hcapital]
  | cons c cs =>
      obtain ⟨htake, hdrop⟩ := takeWhile_append_tail htail (scanSign cs).2
      simp only [List.cons_append, scanExponent, scanSign_append_tail htail, htake, hdrop]
      split <;> rfl

/-- A numeral does not go on behind a character that no number is written with. -/
theorem scan_append_tail (cs : List Char) :
    Numeral.scan (cs ++ tail) = (Numeral.scan cs).map fun (n, rest) => (n, rest ++ tail) := by
  obtain ⟨htake, hdrop⟩ := takeWhile_append_tail htail (scanSign cs).2
  simp only [Numeral.scan, scanSign_append_tail htail, htake, hdrop,
    scanFraction_append_tail htail, scanExponent_append_tail htail]
  split <;> rfl

end Tail

/-- Blanks around a text make no difference to the number that it starts with. -/
theorem leadingValue_trim (s : String) : leadingValue (Text.trim s) = leadingValue s := by
  obtain ⟨blanks, htrim, hblanks⟩ := Chars.exists_trimEnd_append (Chars.trimStart s.toList)
  have htail : ∀ c ∈ blanks.head?, isNumberChar c = false := fun c hc =>
    isNumberChar_of_isBlank (hblanks c (List.mem_of_mem_head? hc))
  have hscan := scan_append_tail htail (Chars.trim s.toList)
  rw [Chars.trim, ← htrim] at hscan
  rw [leadingValue, leadingValue, Text.toList_trim, Chars.trimStart_trim, hscan, Chars.trim]
  cases Numeral.scan (Chars.trimEnd (Chars.trimStart s.toList)) <;> rfl

end FilterEncoding.Number
