import FilterEncoding.Gml.Shape
import FilterEncoding.Predicate.Basic

/-!
# Predicates from elements

How the elements of a filter are read.  An element with a required part missing or malformed
becomes an undefined node, which makes the whole filter invalid later.
-/

namespace FilterEncoding

open FilterEncoding.Xml (Node)

namespace Predicate

/-- The elements that list feature ids. -/
def featureIdNames : List String := ["FeatureId", "GmlObjectId", "ResourceId"]

/-- The geometry elements of spatial predicates; the first of them that occurs is taken. -/
def geometryNames : List String :=
  ["Point", "PointType", "Polygon", "MultiPolygon", "Surface", "MultiSurface", "Box", "Envelope",
   "LineString", "MultiLineString", "Curve", "MultiCurve", "MultiPoint"]

def isFeatureIdName (name : String) : Bool :=
  featureIdNames.contains name

def isLogicalName (name : String) : Bool :=
  name == "And" || name == "Or" || name == "Not"

/-- Whether a filter may start with an element of this name. -/
def isSupportedName (name : String) : Bool :=
  isLogicalName name || isFeatureIdName name || (SpatialOperator.ofTag? name).isSome ||
    (ComparisonOperator.ofTag? name).isSome

/-- A text that is not empty. -/
def nonEmpty (s : String) : Option String :=
  if s = "" then none else some s

/-- The attribute a predicate is about: a trimmed name that is not empty. -/
def propertyName? (n : Node) : Option String :=
  ((n.child? "PropertyName").or (n.child? "ValueReference")).bind fun child =>
    child.text?.bind fun text => nonEmpty (Text.trim text)

/-- Whether a comparison disregards letter case. -/
def ignoresCase (n : Node) : Bool :=
  (n.attribute? "matchCase").any (Text.same "false")

/-- The literal an element holds; an empty text is no value. -/
def literalOf (ignoreCase : Bool) (n : Node) : Predicate :=
  literal (n.text?.bind nonEmpty) ignoreCase

/-- The bound in a boundary element, in a literal or directly; trimmed and not empty. -/
def bound? (n : Node) : Option String :=
  (((n.descendant? "Literal").getD n).text?).bind fun text => nonEmpty (Text.trim text)

/-- The metacharacters that a pattern comparison declares. -/
def likeOptions? (n : Node) : Option LikeOptions := do
  let wildcard ← n.attribute? "wildCard"
  let single ← n.attribute? "singleChar"
  let escape ← (n.attribute? "escape").or (n.attribute? "escapeChar")
  pure ⟨wildcard, single, escape, ignoresCase n⟩

/-- The comparison of an element. -/
def comparisonOf? (op : ComparisonOperator) (n : Node) : Option Predicate := do
  let name ← propertyName? n
  match op with
  | .between => do
      let lower ← (n.child? "LowerBoundary").bind bound?
      let upper ← (n.child? "UpperBoundary").bind bound?
      pure (comparison op (property name) (bounds lower upper) none)
  | .like => do
      let pattern ← n.descendant? "Literal"
      let options ← likeOptions? n
      pure (comparison op (property name) (literalOf (ignoresCase n) pattern) (some options))
  | .relation _ => do
      let value ← n.descendant? "Literal"
      pure (comparison op (property name) (literalOf (ignoresCase n) value) none)

/-- The rectangle of a bounding-box element. -/
def boxOf? (n : Node) : Option Predicate :=
  match (n.child? "Box").or (n.child? "BoxType"), n.child? "Envelope" with
  | some element, _ => (Gml.box element).toOption.map fun (r, crs) => box r crs
  | none, some element => (Gml.envelope element).toOption.map fun (r, crs) => box r crs
  | none, none => none

/-- The distance of an element. -/
def distanceOf? (n : Node) : Option Distance :=
  (n.child? "Distance").map fun element =>
    .ofText (element.text?.getD "") ((element.attribute? "units").or (element.attribute? "uom"))

/-- The shape of a spatial element, with a distance for the operators that need one. -/
def geometryOf? (op : SpatialOperator) (n : Node) : Option Predicate := do
  let element ← geometryNames.findSome? n.child?
  let (shape, crs) ← (Gml.shape element).toOption
  if op.isDistance then
    let distance ← distanceOf? n
    pure (geometry shape crs (some distance))
  else pure (geometry shape crs none)

/-- The spatial predicate of an element. -/
def spatialOf? (op : SpatialOperator) (n : Node) : Option Predicate := do
  let name ← propertyName? n
  let operand ← if op = .bbox then boxOf? n else geometryOf? op n
  pure (spatial op (property name) operand)

/-- The feature id of an element. -/
def featureId? (n : Node) : Option String :=
  (((n.attribute? "fid").or (n.attribute? "id")).or (n.attribute? "rid")).bind nonEmpty

/-- The feature ids of one or more elements, of which the first gives its name to a list without
ids. -/
def featureIdsOf (first : Node) (more : List Node) : Predicate :=
  match (first :: more).filterMap featureId? with
  | [] => undefined (first.name?.getD "")
  | ids => featureIds ids

/-- The predicate of an element that is no connective. -/
def leafOf (n : Node) : Predicate :=
  let name := n.name?.getD ""
  match SpatialOperator.ofTag? name, ComparisonOperator.ofTag? name with
  | some op, _ => (spatialOf? op n).getD (undefined name)
  | none, some op => (comparisonOf? op n).getD (undefined name)
  | none, none => if isFeatureIdName name then featureIdsOf n [] else undefined name

/-- Join operands with a connective, grouped to the right. -/
def chain (op : Connective) (first : Predicate) : List Predicate → Predicate
  | [] => first
  | second :: more => binary op first (chain op second more)

/-- The predicate of a connective with these operands.  Conjunction and disjunction need two,
negation takes the first. -/
def logicalOf (name : String) (operands : List Predicate) : Predicate :=
  match name, operands with
  | "Not", operand :: _ => unary .not operand
  | "And", first :: second :: more => chain .and first (second :: more)
  | "Or", first :: second :: more => chain .or first (second :: more)
  | _, _ => undefined name

mutual

/-- The predicate of an element. -/
def ofNode : Node → Predicate
  | .element name attributes content =>
      if isLogicalName name then logicalOf name (ofNodes content)
      else leafOf (.element name attributes content)
  | n => undefined (n.name?.getD "")

/-- The predicates of the elements among some nodes. -/
def ofNodes : List Node → List Predicate
  | [] => []
  | n :: ns => if n.isElement then ofNode n :: ofNodes ns else ofNodes ns

end

end Predicate

end FilterEncoding
