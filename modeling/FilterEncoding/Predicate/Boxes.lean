import FilterEncoding.Predicate.Basic

/-!
# Bounding boxes in a predicate

A bounding box that every feature has to meet can be taken out of a filter and applied as the
rectangle of the query.  It is the box reached from the root through conjunctions alone, provided
that it is the only one there.
-/

namespace FilterEncoding.Predicate

open FilterEncoding.Geometry (Rectangle)

/-- A child of a node. -/
inductive Side where
  | left
  | right
  deriving Repr, DecidableEq

/-- The way from the root of a predicate to a node, by the children that it leads through. -/
abbrev Position := List Side

/-- The child on a side. -/
def child? (p : Predicate) : Side → Option Predicate
  | .left => p.left?
  | .right => p.right?

/-- The node at a position. -/
def at? (p : Predicate) : Position → Option Predicate
  | [] => some p
  | side :: rest => (p.child? side).bind fun child => child.at? rest

/-- The rectangle of a bounding-box predicate and its reference system. -/
def boxParts? : Predicate → Option (Rectangle × Option String)
  | spatial .bbox _ (box rectangle crs) => some (rectangle, crs)
  | _ => none

/-- The bounding-box predicates reached from the root through conjunctions, from left to right. -/
def conjunctBoxes : Predicate → List Predicate
  | spatial .bbox left right => [spatial .bbox left right]
  | binary .and left right => left.conjunctBoxes ++ right.conjunctBoxes
  | _ => []

/-- The only bounding box among the conjuncts, provided that it has a rectangle. -/
def topBoxNode? (p : Predicate) : Option Predicate :=
  match p.conjunctBoxes with
  | [only] => if only.boxParts?.isSome then some only else none
  | _ => none

/-- The positions of the bounding-box predicates reached from the root through conjunctions. -/
def conjunctBoxPositions : Predicate → List Position
  | spatial .bbox _ _ => [[]]
  | binary .and left right =>
      left.conjunctBoxPositions.map (.left :: ·) ++ right.conjunctBoxPositions.map (.right :: ·)
  | _ => []

/-- The position of the top bounding box. -/
def topBoxPosition? (p : Predicate) : Option Position :=
  p.topBoxNode?.bind fun _ => p.conjunctBoxPositions.head?

/-- The rectangle of the top bounding box, with its reference system. -/
def topBox? (p : Predicate) : Option (Rectangle × Option String) :=
  p.topBoxNode?.bind boxParts?

/-- The first bounding box anywhere, with its reference system. -/
def firstBox? (p : Predicate) : Option (Rectangle × Option String) :=
  p.nodes.findSome? boxParts?

/-- Whether there is no bounding box, or only one and that among the conjuncts. -/
def isBoxLiftable : Predicate → Bool
  | spatial op left right =>
      match (spatial op left right).count "BBOX" with
      | 0 => true
      | 1 => op = .bbox
      | _ => false
  | binary .and left right =>
      match (binary .and left right).count "BBOX" with
      | 0 => true
      | 1 => left.isBoxLiftable && right.isBoxLiftable
      | _ => false
  | p => p.count "BBOX" == 0

/-- Whether there are attribute predicates only, besides one bounding box among the conjuncts. -/
def isSimple (p : Predicate) : Bool :=
  p.isBoxLiftable &&
    (SpatialOperator.all.filter (· != .bbox)).all fun op => p.count op.tag == 0

/-- Whether there is a bounding box or a comparison with a shape. -/
def hasSpatial : Predicate → Bool
  | spatial op left right =>
      (spatial op left right).isBox || (spatial op left right).spatialKind?.isSome
  | unary _ operand => operand.hasSpatial
  | binary _ left right => left.hasSpatial || right.hasSpatial
  | _ => false

end FilterEncoding.Predicate
