import FilterEncoding.Expression.Dialect
import FilterEncoding.Expression.Language

/-!
# The SQL dialect

Conditions for databases.  Attribute names and literals are written as the layer says; spatial
predicates are left to the rectangle of the query.
-/

namespace FilterEncoding.Sql

def relation : Relation → String
  | .eq => "="
  | .ne => "<>"
  | .lt => "<"
  | .gt => ">"
  | .le => "<="
  | .ge => ">="

/-- A comparison with one value.  Letter case is disregarded only in equalities of strings. -/
def compare (layer : Layer) (r : Relation) (name : String) (value : Option String)
    (ignoreCase : Bool) : String :=
  let column := layer.quoteIdentifier name
  match value with
  | none => " (" ++ column ++ relation r ++ " '') "
  | some v =>
      if Dialect.sql.isString layer name value then
        if ignoreCase && r = .eq then
          " (lower(" ++ column ++ ") = lower('" ++ layer.escapeSqlLiteral v ++ "') ) "
        else " (" ++ column ++ relation r ++ " '" ++ layer.escapeSqlLiteral v ++ "') "
      else " (" ++ column ++ relation r ++ " " ++ v ++ ") "

def between (layer : Layer) (name lower upper : String) : String :=
  let column := layer.quoteIdentifier name
  let quote := if Dialect.sql.isStringRange layer name lower upper then "'" else ""
  " (" ++ column ++ " >= " ++ quote ++ layer.escapeSqlLiteral lower ++ quote ++ " AND " ++
    column ++ " <= " ++ quote ++ layer.escapeSqlLiteral upper ++ quote ++ ")"

/-- A character that stands for itself in a literal behind `escape`: a quote is doubled. -/
def escapedChar (c : Char) : List Char :=
  if c = '\'' then ['\'', '\''] else [c]

/-- A character of a pattern that is no escape character. -/
def patternChar (m : Metacharacters) (c : Char) : List Char :=
  if c = m.single then ['_']
  else if c = m.wildcard then ['%']
  else if c = '\'' then ['\'', '\'']
  else if c = '\\' then ['\\', '\\']
  else [c]

/-- Whether a character of a pattern acts as its escape character. -/
def isEscape (m : Metacharacters) (c : Char) : Bool :=
  c = m.escape && c != m.single && c != m.wildcard

/-- The inside of a pattern literal. -/
def patternChars (m : Metacharacters) : List Char → List Char
  | [] => []
  | [c] => if isEscape m c then [c] else patternChar m c
  | c :: d :: cs =>
      if isEscape m c then c :: (escapedChar d ++ patternChars m cs)
      else patternChar m c ++ patternChars m (d :: cs)

/-- The operator of a pattern comparison. -/
def likeOperator (connection : Connection) (ignoreCase : Bool) : String :=
  if connection = .postGis then (if ignoreCase then "::text ilike " else "::text like ")
  else " like "

/-- The clause that declares the escape character, where the database takes one. -/
def escapeClause (connection : Connection) (escape : Char) : String :=
  if connection = .ogr then ""
  else if escape = '\\' then
    if connection = .postGis then " escape E'\\\\'" else " escape '\\\\'"
  else " escape '" ++ String.singleton escape ++ "'"

/-- A pattern comparison.  A quote as escape character would end the literal. -/
def like (layer : Layer) (name pattern : String) (m : Metacharacters) (ignoreCase : Bool) :
    Except Obstacle String :=
  if m.escape = '\'' then .error (.unsafeEscape m.escape)
  else
    .ok (" (" ++ layer.quoteIdentifier name ++ likeOperator layer.connection ignoreCase ++ "'" ++
      String.ofList (patternChars m pattern.toList) ++ "'" ++
      escapeClause layer.connection m.escape ++ ") ")

/-- The comparison of the id attribute with one id.  Some databases need the attribute cast to a
string first. -/
def compareId (layer : Layer) (column : String) (quoted : Bool) (id : String) : String :=
  let value := layer.escapeSqlLiteral id
  if quoted then
    if layer.connection = .ogr ∨ layer.connection = .postGis then
      "(CAST(" ++ column ++ " AS CHARACTER(255)) = '" ++ value ++ "')"
    else "(" ++ column ++ " = '" ++ value ++ "')"
  else "(" ++ column ++ " = " ++ value ++ ")"

def featureIds (layer : Layer) (tokens : List String) : Except Obstacle String :=
  match layer.idAttribute, Dialect.sql.idList? tokens with
  | some column, some (ids, quoted) =>
      .ok (anyOf (ids.map (compareId layer (layer.quoteIdentifier column) quoted)))
  | _, _ => .error .inexpressible

def test (layer : Layer) : Test → Except Obstacle String
  | .relation r name value ignoreCase => .ok (compare layer r name value ignoreCase)
  | .between name lower upper => .ok (between layer name lower upper)
  | .like name pattern m ignoreCase => like layer name pattern m ignoreCase
  | .featureIds tokens => featureIds layer tokens
  | .inBox _ _ | .toShape _ _ _ _ => .error .inexpressible

def language (layer : Layer) : Language String where
  test := test layer
  negate := fun operand => " (NOT " ++ operand ++ ") "
  join := fun op left right => " (" ++ left ++ " " ++ op.keyword ++ " " ++ right ++ ") "
  besideBox := id

end FilterEncoding.Sql
