/-!
# Operators

The operators of Filter Encoding with the element names they are written with.
-/

namespace FilterEncoding

inductive Connective where
  | and
  | or
  | not
  deriving Repr, DecidableEq

/-- The keyword of a connective in every expression language. -/
def Connective.keyword : Connective → String
  | and => "AND"
  | or => "OR"
  | not => "NOT"

/-- A comparison between an attribute and one value. -/
inductive Relation where
  | eq
  | ne
  | lt
  | gt
  | le
  | ge
  deriving Repr, DecidableEq

inductive ComparisonOperator where
  | relation (r : Relation)
  | like
  | between
  deriving Repr, DecidableEq

namespace ComparisonOperator

def tag : ComparisonOperator → String
  | relation .eq => "PropertyIsEqualTo"
  | relation .ne => "PropertyIsNotEqualTo"
  | relation .lt => "PropertyIsLessThan"
  | relation .gt => "PropertyIsGreaterThan"
  | relation .le => "PropertyIsLessThanOrEqualTo"
  | relation .ge => "PropertyIsGreaterThanOrEqualTo"
  | like => "PropertyIsLike"
  | between => "PropertyIsBetween"

def all : List ComparisonOperator :=
  [relation .eq, relation .ne, relation .lt, relation .gt, relation .le, relation .ge, like,
   between]

/-- The operator with an element name. -/
def ofTag? (name : String) : Option ComparisonOperator :=
  all.find? fun op => op.tag == name

/-- Whether the operator compares with one value. -/
def isBinary : ComparisonOperator → Bool
  | relation _ => true
  | like | between => false

end ComparisonOperator

inductive SpatialOperator where
  | bbox
  | intersects
  | equals
  | disjoint
  | touches
  | crosses
  | within
  | contains
  | overlaps
  | beyond
  | dWithin
  deriving Repr, DecidableEq

namespace SpatialOperator

def tag : SpatialOperator → String
  | bbox => "BBOX"
  | intersects => "Intersects"
  | equals => "Equals"
  | disjoint => "Disjoint"
  | touches => "Touches"
  | crosses => "Crosses"
  | within => "Within"
  | contains => "Contains"
  | overlaps => "Overlaps"
  | beyond => "Beyond"
  | dWithin => "DWithin"

def all : List SpatialOperator :=
  [bbox, intersects, equals, disjoint, touches, crosses, within, contains, overlaps, beyond,
   dWithin]

/-- The operator with an element name; `Intersects` has a second, older name. -/
def ofTag? (name : String) : Option SpatialOperator :=
  if name = "Intersect" then some intersects else all.find? fun op => op.tag == name

/-- Whether the operator needs a distance. -/
def isDistance (op : SpatialOperator) : Bool :=
  op = beyond || op = dWithin

end SpatialOperator

end FilterEncoding
