import FilterEncoding.Distance
import FilterEncoding.Geometry.Rectangle
import FilterEncoding.Like.Pattern
import FilterEncoding.Predicate.Operator

/-!
# Predicates

A filter as a tree.  Operands of comparisons and spatial operators are nodes of the tree too.  The
type also has trees that no document gives, such as a conjunction of one operand; every function
says what it makes of them.
-/

namespace FilterEncoding

open FilterEncoding.Geometry (Rectangle Shape ShapeKind)

inductive Predicate where
  /-- A connective with one operand. -/
  | unary (op : Connective) (operand : Predicate)
  /-- A connective with two operands. -/
  | binary (op : Connective) (left right : Predicate)
  | comparison (op : ComparisonOperator) (left right : Predicate) (like : Option LikeOptions)
  | spatial (op : SpatialOperator) (left right : Predicate)
  | property (name : String)
  | literal (value : Option String) (ignoreCase : Bool)
  /-- The bounds of a range. -/
  | bounds (lower upper : String)
  | box (rectangle : Rectangle) (crs : Option String)
  | geometry (shape : Shape) (crs : Option String) (distance : Option Distance)
  /-- Feature ids as they were requested, which may be comma lists with type names. -/
  | featureIds (tokens : List String)
  /-- An element that could not be read. -/
  | undefined (element : String)
  deriving Repr

namespace Predicate

/-- A comparison of an attribute with a value, with regard to letter case. -/
def compare (op : ComparisonOperator) (name : String) (value : Option String) : Predicate :=
  comparison op (property name) (literal value false) none

/-- A bounding-box predicate. -/
def bbox (name : String) (rectangle : Rectangle) (crs : Option String) : Predicate :=
  spatial .bbox (property name) (box rectangle crs)

/-- The element name of a node. -/
def tag : Predicate → String
  | unary op _ | binary op _ _ => op.keyword
  | comparison op _ _ _ => op.tag
  | spatial op _ _ => op.tag
  | property _ => "PropertyName"
  | literal _ _ => "Literal"
  | bounds _ _ => "Boundary"
  | box _ _ => "Box"
  | geometry _ _ _ => "Geometry"
  | featureIds _ => "FeatureId"
  | undefined element => element

/-- The first child. -/
def left? : Predicate → Option Predicate
  | unary _ left | binary _ left _ | comparison _ left _ _ | spatial _ left _ => some left
  | _ => none

/-- The second child. -/
def right? : Predicate → Option Predicate
  | binary _ _ right | comparison _ _ right _ | spatial _ _ right => some right
  | _ => none

/-- A node and all nodes below it, each one in front of its children. -/
def nodes : Predicate → List Predicate
  | unary op left => unary op left :: left.nodes
  | binary op left right => binary op left right :: (left.nodes ++ right.nodes)
  | comparison op left right like =>
      comparison op left right like :: (left.nodes ++ right.nodes)
  | spatial op left right => spatial op left right :: (left.nodes ++ right.nodes)
  | leaf => [leaf]

/-- The number of nodes with an element name, in any letter case. -/
def count (name : String) (p : Predicate) : Nat :=
  p.nodes.countP fun n => Text.same n.tag name

/-- Whether a node is a bounding-box predicate. -/
def isBox : Predicate → Bool
  | spatial .bbox _ _ => true
  | _ => false

/-- The kind of shape that a spatial predicate compares with. -/
def spatialKind? : Predicate → Option ShapeKind
  | spatial _ _ (geometry shape _ _) => shape.kind?
  | _ => none

/-- The attribute that a comparison is about. -/
def comparedProperty? : Predicate → Option String
  | comparison _ (property name) _ _ => some name
  | _ => none

/-- The element of the first node that could not be read. -/
def firstUndefined? (p : Predicate) : Option String :=
  p.nodes.findSome? fun
    | undefined element => some element
    | _ => none

theorem mem_nodes_self (p : Predicate) : p ∈ p.nodes := by
  cases p <;> simp [nodes]

end Predicate

end FilterEncoding
