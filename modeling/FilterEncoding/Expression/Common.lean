import FilterEncoding.Expression.Dialect
import FilterEncoding.Expression.Language
import FilterEncoding.Geometry.Engine

/-!
# The common dialect

For sources without SQL that evaluate spatial functions.  Shapes are written as well-known text in
the reference system of the layer.
-/

namespace FilterEncoding.Common

open FilterEncoding.Geometry (Engine Rectangle Shape)

/-- How a value is written. -/
inductive ValueKind where
  | numeric
  | string
  | date
  deriving Repr, DecidableEq

def relation (r : Relation) (ignoreCase : Bool) : String :=
  match r with
  | .eq => if ignoreCase then "=*" else "="
  | .ne => "!="
  | .lt => "<"
  | .gt => ">"
  | .le => "<="
  | .ge => ">="

/-- The kind of a value that is present or not; only a value that is present can be a date. -/
def valueKind (layer : Layer) (name : String) (value : Option String) : ValueKind :=
  if value.isSome && layer.attributeType name = some .date then .date
  else if Dialect.common.isString layer name value then .string
  else .numeric

/-- The kind of both bounds of a range. -/
def rangeKind (layer : Layer) (name lower upper : String) : ValueKind :=
  if layer.attributeType name = some .date then .date
  else if Dialect.common.isStringRange layer name lower upper then .string
  else .numeric

/-- An attribute; in a string comparison it is a string too. -/
def bracketed (kind : ValueKind) (name : String) : String :=
  if kind = .string then "\"[" ++ name ++ "]\"" else "[" ++ name ++ "]"

/-- A value that is already escaped. -/
def quoted (kind : ValueKind) (value : String) : String :=
  match kind with
  | .string => "\"" ++ value ++ "\""
  | .date => "`" ++ value ++ "`"
  | .numeric => value

def compare (layer : Layer) (r : Relation) (name : String) (value : Option String)
    (ignoreCase : Bool) : String :=
  let kind := valueKind layer name value
  "(" ++ bracketed kind name ++ " " ++ relation r ignoreCase ++ " " ++
    quoted kind ((value.map layer.escapeString).getD "") ++ ")"

def between (layer : Layer) (name lower upper : String) : String :=
  let kind := rangeKind layer name lower upper
  "(" ++ bracketed kind name ++ "  >= " ++ quoted kind (layer.escapeString lower) ++ " AND  " ++
    bracketed kind name ++ "  <= " ++ quoted kind (layer.escapeString upper) ++ ")"

/-- The characters with a meaning in patterns, and the quote, since a pattern is a string. -/
def patternSpecials : List Char :=
  ['\\', '^', '$', '\x7b', '[', '(', ')', '.', '*', '+', '?', '|', '"']

/-- A character that stands for itself.  A backslash is escaped in the pattern and again in the
string. -/
def literalChar (c : Char) : List Char :=
  if c = '\\' then ['\\', '\\', '\\', '\\']
  else if patternSpecials.contains c then ['\\', c]
  else [c]

/-- A character of a pattern that escapes nothing and is not escaped. -/
def patternChar (m : Metacharacters) (c : Char) : List Char :=
  if c = m.single then ['.'] else if c = m.wildcard then ['.', '*'] else literalChar c

/-- Whether `c` escapes `d`: only metacharacters are escaped. -/
def escapes (m : Metacharacters) (c d : Char) : Bool :=
  c = m.escape && c != m.single && (d = m.single || d = m.wildcard || d = m.escape)

/-- The pattern between its anchors. -/
def patternChars (m : Metacharacters) : List Char → List Char
  | [] => []
  | [c] => patternChar m c
  | c :: d :: cs =>
      if escapes m c d then literalChar d ++ patternChars m cs
      else patternChar m c ++ patternChars m (d :: cs)

/-- The regular expression of a pattern; an empty one has no anchors. -/
def regex (m : Metacharacters) (pattern : String) : String :=
  if pattern = "" then "" else "^" ++ String.ofList (patternChars m pattern.toList) ++ "$"

def like (name pattern : String) (m : Metacharacters) (ignoreCase : Bool) : String :=
  "(\"[" ++ name ++ "]\" " ++ (if ignoreCase then "~*" else "~") ++ " \"" ++ regex m pattern ++
    "\")"

/-- The comparison of the id attribute with one id. -/
def compareId (layer : Layer) (column : String) (quoted : Bool) (id : String) : String :=
  if quoted then "(\"[" ++ column ++ "]\" == \"" ++ layer.escapeString id ++ "\")"
  else "([" ++ column ++ "] == " ++ id ++ ")"

def featureIds (layer : Layer) (tokens : List String) : Except Obstacle String :=
  match layer.idAttribute, Dialect.common.idList? tokens with
  | some column, some (ids, quoted) =>
      .ok (anyOf (ids.map (compareId layer column quoted)))
  | _, _ => .error .inexpressible

/-- A call of a spatial function. -/
def call (engine : Engine) (function : String) (shape : Shape) (distance : Option Float) :
    String :=
  let rest :=
    match distance with
    | some d => ", " ++ Number.text d
    | none => ""
  function ++ "([shape], fromText('" ++ engine.wkt shape ++ "')" ++ rest ++ ") = TRUE"

/-- A rectangle that reaches as far to the left as this came from projecting the whole world. -/
def worldLimit : Float := -1e14

/-- A rectangle as a polygon in the reference system of the layer.  A projection that blows the
whole world up to everything is taken as it is. -/
def boxShape (layer : Layer) (engine : Engine) (r : Rectangle) (crs : Option String) : Shape :=
  let source := crs.or layer.mapCrs
  let projected := engine.projectRectangle r source layer.layerCrs
  if r.isWorld && projected.minx ≤ worldLimit then projected.toShape
  else engine.project r.toShape source layer.layerCrs

def inBox (layer : Layer) (engine : Engine) (r : Rectangle) (crs : Option String) : String :=
  "(NOT (NOT (" ++ call engine "intersects" (boxShape layer engine r crs) none ++ ")))"

/-- A distance in the units of the layer.  One that is not positive is not converted. -/
def layerDistance (layer : Layer) (engine : Engine) (d : Distance) : Float :=
  if d.value ≤ 0 then d.value else d.inUnit layer.units engine.inchesPerUnit

/-- The name of the function for a spatial operator. -/
def functionName : SpatialOperator → String
  | .bbox | .intersects => "intersects"
  | op => op.tag.toLower

/-- A shape, extended by a distance that is positive if the engine can do that. -/
def buffered (engine : Engine) (s : Shape) (d : Float) : Shape :=
  if d > 0 then (engine.buffer s d).getD s else s

def toShape (layer : Layer) (engine : Engine) (op : SpatialOperator) (s : Shape)
    (crs : Option String) (distance : Option Distance) : String :=
  let projected := engine.project s (crs.or layer.mapCrs) layer.layerCrs
  if op.isDistance then
    let d := (distance.map (layerDistance layer engine)).getD 0
    call engine (functionName op) (buffered engine projected d) (some d)
  else call engine (functionName op) projected none

def test (layer : Layer) (engine : Engine) : Test → Except Obstacle String
  | .relation r name value ignoreCase => .ok (compare layer r name value ignoreCase)
  | .between name lower upper => .ok (between layer name lower upper)
  | .like name pattern m ignoreCase => .ok (like name pattern m ignoreCase)
  | .featureIds tokens => featureIds layer tokens
  | .inBox r crs => .ok (inBox layer engine r crs)
  | .toShape op s crs distance => .ok (toShape layer engine op s crs distance)

def language (layer : Layer) (engine : Engine) : Language String where
  test := test layer engine
  negate := fun operand => "(NOT " ++ operand ++ ")"
  join := fun op left right => "(" ++ left ++ " " ++ op.keyword ++ " " ++ right ++ ")"
  besideBox := id

end FilterEncoding.Common
