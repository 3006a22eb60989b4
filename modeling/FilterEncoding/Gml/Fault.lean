/-!
# Faults of GML elements

Why an element is not read as a geometry.
-/

namespace FilterEncoding.Gml

inductive Fault where
  /-- A tuple of a coordinate list with fewer than two values. -/
  | badTuple (tuple : String)
  | emptyCoordinates
  | coordWithoutX
  | coordWithoutY
  /-- A position list whose length is no multiple of the dimension, or zero. -/
  | unevenPositions (count dimension : Nat)
  | shortPosition
  | noCoordinates (element : String)
  | noRing (element : String)
  | boxTupleCount
  /-- A tuple of a box that does not have exactly two values. -/
  | badBoxTuple (tuple : String)
  | boxWithoutCorners
  | noLowerCorner
  | noUpperCorner
  | shortCorner
  | noMembers (element : String)
  | unsupported (element : String)
  deriving Repr, DecidableEq

/-- What is wrong, in words. -/
def Fault.description : Fault → String
  | badTuple tuple => "bad coordinate tuple '" ++ tuple ++ "'"
  | emptyCoordinates => "empty coordinates"
  | coordWithoutX => "coord without X"
  | coordWithoutY => "coord without Y"
  | unevenPositions count dimension =>
      Nat.repr count ++ " values do not form " ++ Nat.repr dimension ++ "D positions"
  | shortPosition => "pos needs two values"
  | noCoordinates element => element ++ " has no coordinates"
  | noRing element => element ++ " has no LinearRing"
  | boxTupleCount => "Box coordinates need exactly two tuples"
  | badBoxTuple tuple => "bad Box tuple '" ++ tuple ++ "'"
  | boxWithoutCorners => "Box needs coordinates or two coord elements"
  | noLowerCorner => "Envelope without lowerCorner"
  | noUpperCorner => "Envelope without upperCorner"
  | shortCorner => "Envelope corners need two values"
  | noMembers element => element ++ " without members"
  | unsupported element => "unsupported geometry " ++ element

def Fault.message (f : Fault) : String :=
  "GML error: " ++ f.description

end FilterEncoding.Gml
