import FilterEncoding.Chars.Letters
import FilterEncoding.Number.Numeral
import FilterEncoding.Text

/-!
# Distances

Buffer distances with the units they may be given in.
-/

namespace FilterEncoding

inductive DistanceUnit where
  | meters
  | kilometers
  | nauticalMiles
  | miles
  | inches
  | feet
  | decimalDegrees
  | pixels
  deriving Repr, DecidableEq

namespace DistanceUnit

/-- The unit tokens, in lower case. -/
def tokens : List (String × DistanceUnit) :=
  [("m", meters), ("meters", meters), ("km", kilometers), ("kilometers", kilometers),
   ("nm", nauticalMiles), ("nauticalmiles", nauticalMiles), ("mi", miles), ("miles", miles),
   ("in", inches), ("inches", inches), ("ft", feet), ("feet", feet), ("deg", decimalDegrees),
   ("dd", decimalDegrees), ("px", pixels)]

/-- The unit of a token in any letter case.  Only what stands behind the last `#` counts, so that a
URI with the token as its fragment is accepted too. -/
def ofToken? (token : String) : Option DistanceUnit :=
  tokens.lookup (Text.afterLast '#' token).toLower

/-- The length of a unit in inches.  Degrees are measured at the equator. -/
def inchesPerUnit : DistanceUnit → Float
  | inches => 1
  | feet => 12
  | miles => 63360
  | meters => 39.3701
  | kilometers => 39370.1
  | decimalDegrees => 4374754
  | pixels => 1
  | nauticalMiles => 72913.3858

end DistanceUnit

/-- A distance; the unit is absent when none was given or it is not known. -/
structure Distance where
  value : Float
  unit : Option DistanceUnit
  deriving Repr, DecidableEq

namespace Distance

/-- A distance from the text of its element and the unit token, if there is one. -/
def ofText (text : String) (token : Option String) : Distance :=
  ⟨Number.leadingValue text, token.bind DistanceUnit.ofToken?⟩

/-- The distance in other units, for given unit lengths.  It is left as it is when either unit is
not known. -/
def inUnit (d : Distance) (target : Option DistanceUnit) (inchesPerUnit : DistanceUnit → Float) :
    Float :=
  match d.unit, target with
  | some source, some target =>
      if source = target then d.value
      else d.value * inchesPerUnit source / inchesPerUnit target
  | _, _ => d.value

end Distance

end FilterEncoding
