import FilterEncoding.Number.Shortest

/-!
# Doubles as text

Coordinates and distances are written with the fewest digits that read back, always in positional
notation: no exponent, and no point behind a whole number.  A negative zero keeps its sign.
-/

namespace FilterEncoding.Number

/-- A decimal in positional notation. -/
def Decimal.positional (d : Decimal) : List Char :=
  let digits := Nat.toDigits 10 d.digits
  match d.exponent with
  | .ofNat zeros => digits ++ List.replicate zeros '0'
  | .negSucc k =>
      let places := k + 1
      if places < digits.length then
        digits.take (digits.length - places) ++ '.' :: digits.drop (digits.length - places)
      else '0' :: '.' :: (List.replicate (places - digits.length) '0' ++ digits)

/-- The text of a double. -/
def text (x : Float) : String :=
  let bits := x.toBits.toNat
  let sign := if bits / Nat.pow 2 63 = 1 then "-" else ""
  let biased := bits / Nat.pow 2 52 % Nat.pow 2 11
  if biased = Nat.pow 2 11 - 1 then
    if bits % Nat.pow 2 52 = 0 then sign ++ "inf" else "NaN"
  else if bits % Nat.pow 2 63 = 0 then sign ++ "0"
  else sign ++ String.ofList (Binary.ofBits bits).shortest.positional

end FilterEncoding.Number
