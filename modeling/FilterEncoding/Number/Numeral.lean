import FilterEncoding.Chars.Blank
import FilterEncoding.Number.Digits

/-!
# Decimal numerals

A numeral is an optional sign, digits with an optional point and an optional exponent, with at
least one digit before or behind the point.  `Numeral.scan` reads the longest numeral at the start
of a text; the numeral keeps every character it was written with, so `Numeral.text` gives the
scanned part back.
-/

namespace FilterEncoding.Number

/-- The exponent of a numeral: its letter, an optional sign and at least one digit. -/
structure Exponent where
  letter : Char
  sign : Option Char
  digits : List Char
  deriving Repr, DecidableEq

/-- A decimal numeral as it is written.  `fraction` is absent when there is no point. -/
structure Numeral where
  sign : Option Char
  whole : List Char
  fraction : Option (List Char)
  exponent : Option Exponent
  deriving Repr, DecidableEq

/-- The characters of a fraction, with its point. -/
def fractionText : Option (List Char) → List Char
  | none => []
  | some digits => '.' :: digits

/-- The characters of an exponent. -/
def exponentText : Option Exponent → List Char
  | none => []
  | some e => e.letter :: (e.sign.toList ++ e.digits)

/-- A plus or minus sign in front, and what follows it. -/
def scanSign : List Char → Option Char × List Char
  | [] => (none, [])
  | c :: cs => if c = '+' ∨ c = '-' then (some c, cs) else (none, c :: cs)

/-- A point with the digits behind it.  Behind no whole digits a lone point is not scanned. -/
def scanFraction (whole : List Char) : List Char → Option (List Char) × List Char
  | [] => (none, [])
  | c :: cs =>
      if c = '.' && !(whole.isEmpty && (cs.takeWhile Char.isDigit).isEmpty) then
        (some (cs.takeWhile Char.isDigit), cs.dropWhile Char.isDigit)
      else (none, c :: cs)

/-- An exponent.  A letter without digits behind it is not scanned. -/
def scanExponent : List Char → Option Exponent × List Char
  | [] => (none, [])
  | c :: cs =>
      let (sign, rest) := scanSign cs
      let digits := rest.takeWhile Char.isDigit
      if (c = 'e' ∨ c = 'E') ∧ digits ≠ [] then
        (some ⟨c, sign, digits⟩, rest.dropWhile Char.isDigit)
      else (none, c :: cs)

namespace Numeral

/-- The longest numeral at the start of a text, and the rest of the text. -/
def scan (cs : List Char) : Option (Numeral × List Char) :=
  let (sign, unsigned) := scanSign cs
  let whole := unsigned.takeWhile Char.isDigit
  let (fraction, scaled) := scanFraction whole (unsigned.dropWhile Char.isDigit)
  if whole.isEmpty && fraction.isNone then none
  else
    let (exponent, rest) := scanExponent scaled
    some (⟨sign, whole, fraction, exponent⟩, rest)

/-- The characters a numeral was written with. -/
def text (n : Numeral) : List Char :=
  n.sign.toList ++ n.whole ++ fractionText n.fraction ++ exponentText n.exponent

/-- All digits of a numeral, read as one integer. -/
def significand (n : Numeral) : Nat :=
  digitsValue (n.whole ++ n.fraction.getD [])

/-- The power of ten that the significand is multiplied by. -/
def scale (n : Numeral) : Int :=
  let written : Int :=
    match n.exponent with
    | none => 0
    | some e => if e.sign = some '-' then -(digitsValue e.digits : Int) else digitsValue e.digits
  written - ((n.fraction.getD []).length : Int)

/-- The nearest double to the number a numeral denotes. -/
def value (n : Numeral) : Float :=
  let magnitude := Float.ofScientific n.significand (decide (n.scale < 0)) n.scale.natAbs
  if n.sign = some '-' then -magnitude else magnitude

end Numeral

/-- Whether a text is a numeral and nothing else. -/
def isDecimal (text : String) : Bool :=
  match Numeral.scan text.toList with
  | some (_, []) => true
  | _ => false

/-- The value of the numeral that a text starts with, behind any blanks; zero if there is none. -/
def leadingValue (text : String) : Float :=
  match Numeral.scan (Chars.trimStart text.toList) with
  | some (n, _) => n.value
  | none => 0

theorem scanSign_append (cs : List Char) :
    (scanSign cs).1.toList ++ (scanSign cs).2 = cs := by
  cases cs with
  | nil => rfl
  | cons c cs =>
      simp only [scanSign]
      split <;> simp

theorem scanFraction_append (whole cs : List Char) :
    fractionText (scanFraction whole cs).1 ++ (scanFraction whole cs).2 = cs := by
  cases cs with
  | nil => rfl
  | cons c cs =>
      simp only [scanFraction]
      split
      · next h =>
        simp only [Bool.and_eq_true, decide_eq_true_eq] at h
        simp [fractionText, h.1]
      · rfl

theorem scanExponent_append (cs : List Char) :
    exponentText (scanExponent cs).1 ++ (scanExponent cs).2 = cs := by
  cases cs with
  | nil => rfl
  | cons c cs =>
      simp only [scanExponent]
      split
      · simp [exponentText, scanSign_append]
      · rfl

/-- Scanning loses no character. -/
theorem Numeral.text_append_of_scan {cs rest : List Char} {n : Numeral}
    (h : Numeral.scan cs = some (n, rest)) : n.text ++ rest = cs := by
  simp only [Numeral.scan] at h
  split at h
  · cases h
  · cases h
    simp only [Numeral.text, List.append_assoc]
    rw [scanExponent_append, scanFraction_append, List.takeWhile_append_dropWhile,
      scanSign_append]

end FilterEncoding.Number
