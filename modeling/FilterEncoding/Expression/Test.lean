import FilterEncoding.Predicate.Basic

/-!
# Tests

A test is a leaf of a filter that can have an expression: an operator together with operands of the
right kinds.  Some dialects still have no expression for it.
-/

namespace FilterEncoding

open FilterEncoding.Geometry (Rectangle Shape)

inductive Test where
  | relation (r : Relation) (name : String) (value : Option String) (ignoreCase : Bool)
  | between (name lower upper : String)
  | like (name pattern : String) (m : Metacharacters) (ignoreCase : Bool)
  | featureIds (tokens : List String)
  /-- The feature meets a rectangle. -/
  | inBox (rectangle : Rectangle) (crs : Option String)
  /-- The feature is in a spatial relation to a shape. -/
  | toShape (op : SpatialOperator) (shape : Shape) (crs : Option String)
      (distance : Option Distance)

/-- Why there is no expression. -/
inductive Obstacle where
  /-- The dialect cannot say it. -/
  | inexpressible
  /-- The escape character of a pattern would end the literal it stands in. -/
  | unsafeEscape (c : Char)
  deriving Repr, DecidableEq

/-- The test of a leaf.  Comparisons need an attribute on the left and the operand of their
operator on the right; what a spatial predicate has on the left does not matter. -/
def Predicate.test? : Predicate → Option Test
  | comparison (.relation r) (property name) (literal value ignoreCase) _ =>
      some (.relation r name value ignoreCase)
  | comparison .between (property name) (bounds lower upper) _ => some (.between name lower upper)
  | comparison .like (property name) (literal (some pattern) _) (some options) =>
      options.metacharacters?.map fun m => .like name pattern m options.ignoreCase
  | featureIds tokens => some (.featureIds tokens)
  | spatial _ _ (box rectangle crs) => some (.inBox rectangle crs)
  | spatial op _ (geometry shape crs distance) => some (.toShape op shape crs distance)
  | _ => none

end FilterEncoding
