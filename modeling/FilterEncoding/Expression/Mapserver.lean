import FilterEncoding.Expression.Dialect
import FilterEncoding.Expression.Language

/-!
# The Mapserver dialect

Attributes stand in brackets, strings in double quotes and patterns in slashes.  There are no
spatial functions.
-/

namespace FilterEncoding.Mapserver

def relation (r : Relation) (ignoreCase : Bool) : String :=
  match r with
  | .eq => if ignoreCase then "IEQ" else "="
  | .ne => "!="
  | .lt => "<"
  | .gt => ">"
  | .le => "<="
  | .ge => ">="

/-- A comparison with one value.  Numbers are compared with regard to letter case always. -/
def compare (layer : Layer) (r : Relation) (name : String) (value : Option String)
    (ignoreCase : Bool) : String :=
  if Dialect.mapserver.isString layer name value then
    " (\"[" ++ name ++ "]\" " ++ relation r ignoreCase ++ " \"" ++
      (value.map layer.escapeString).getD "" ++ "\") "
  else " ([" ++ name ++ "] " ++ relation r false ++ " " ++ value.getD "" ++ ") "

def between (layer : Layer) (name lower upper : String) : String :=
  if Dialect.mapserver.isStringRange layer name lower upper then
    " (\"[" ++ name ++ "]\"  >= \"" ++ layer.escapeString lower ++ "\" AND  \"[" ++ name ++
      "]\"  <= \"" ++ layer.escapeString upper ++ "\")"
  else
    " ([" ++ name ++ "]  >= " ++ lower ++ " AND  [" ++ name ++ "]  <= " ++ upper ++ ")"

/-- A character of a pattern that is not behind an escape character. -/
def patternChar (m : Metacharacters) (c : Char) : List Char :=
  if c = m.single then ['.']
  else if c = m.wildcard then ['.', '*']
  else if c = '/' then ['\\', '/']
  else [c]

/-- The regular expression of a pattern between its anchors.  An escape character becomes a
backslash. -/
def patternChars (m : Metacharacters) : List Char → List Char
  | [] => []
  | [c] => if c = m.escape then ['\\'] else patternChar m c
  | c :: d :: cs =>
      if c = m.escape then '\\' :: d :: patternChars m cs
      else patternChar m c ++ patternChars m (d :: cs)

/-- The regular expression of a pattern; an empty one has no anchors. -/
def regex (m : Metacharacters) (pattern : String) : String :=
  if pattern = "" then "" else "^" ++ String.ofList (patternChars m pattern.toList) ++ "$"

def like (name pattern : String) (m : Metacharacters) (ignoreCase : Bool) : String :=
  "(\"[" ++ name ++ "]\" " ++ (if ignoreCase then "~*" else "=~") ++ " /" ++ regex m pattern ++
    "/)"

/-- The comparison of the id attribute with one id. -/
def compareId (layer : Layer) (column : String) (quoted : Bool) (id : String) : String :=
  if quoted then "(\"[" ++ column ++ "]\" = \"" ++ layer.escapeString id ++ "\")"
  else "([" ++ column ++ "] = " ++ id ++ ")"

def featureIds (layer : Layer) (tokens : List String) : Except Obstacle String :=
  match layer.idAttribute, Dialect.mapserver.idList? tokens with
  | some column, some (ids, quoted) =>
      .ok (anyOf (ids.map (compareId layer column quoted)))
  | _, _ => .error .inexpressible

def test (layer : Layer) : Test → Except Obstacle String
  | .relation r name value ignoreCase => .ok (compare layer r name value ignoreCase)
  | .between name lower upper => .ok (between layer name lower upper)
  | .like name pattern m ignoreCase => .ok (like name pattern m ignoreCase)
  | .featureIds tokens => featureIds layer tokens
  | .inBox _ _ | .toShape _ _ _ _ => .error .inexpressible

def language (layer : Layer) : Language String where
  test := test layer
  negate := fun operand => " (NOT " ++ operand ++ ") "
  join := fun op left right => " (" ++ left ++ " " ++ op.keyword ++ " " ++ right ++ ") "
  besideBox := fun partner => "(" ++ partner ++ ")"

end FilterEncoding.Mapserver
