import FilterEncoding.Chars.Letters
import FilterEncoding.Number.Numeral

/-!
# Numeric texts

The expression dialects take as a number every complete text that a C library reads as one: a
floating-point literal, the words for infinity and not-a-number, or a hexadecimal integer.  The
literal is recognised here from its overall form, not by scanning.
-/

namespace FilterEncoding.Number

/-- The words that denote infinities and not-a-number, in lower case. -/
def specialWords : List (List Char) :=
  ["inf".toList, "infinity".toList, "nan".toList]

/-- A mantissa: digits with at most one point among them, and at least one digit. -/
def isMantissa (cs : List Char) : Bool :=
  cs.all (fun c => c.isDigit || c == '.') && cs.any Char.isDigit && cs.count '.' ≤ 1

/-- What may follow a mantissa: nothing, or a letter `e`, an optional sign and digits. -/
def isExponentPart : List Char → Bool
  | [] => true
  | _ :: cs => !(scanSign cs).2.isEmpty && (scanSign cs).2.all Char.isDigit

/-- Whether an unsigned text is a floating-point literal. -/
def isPlainFloat (cs : List Char) : Bool :=
  let beforeExponent := fun c : Char => c != 'e' && c != 'E'
  isMantissa (cs.takeWhile beforeExponent) && isExponentPart (cs.dropWhile beforeExponent)

def isHexDigit (c : Char) : Bool :=
  c.isDigit || ('a' ≤ c && c ≤ 'f') || ('A' ≤ c && c ≤ 'F')

/-- Whether an unsigned text is a hexadecimal integer, written `0x` and digits. -/
def isHexadecimal : List Char → Bool
  | '0' :: x :: digits =>
      (x == 'x' || x == 'X') && !digits.isEmpty && digits.all isHexDigit
  | _ => false

/-- Whether a text is a number in the wide sense, with an optional sign. -/
def isNumeric (text : String) : Bool :=
  let unsigned := (scanSign text.toList).2
  specialWords.contains (Chars.lower unsigned) || isPlainFloat unsigned || isHexadecimal unsigned

end FilterEncoding.Number
