import FilterEncoding.Layer.Basic

/-!
# The filter of a layer

A layer may have a filter of its own.  The expression of a request joins it, or takes its place.
-/

namespace FilterEncoding

/-- A filter that is configured on a layer. -/
inductive LayerFilter where
  /-- An expression, which requests add to. -/
  | expression (text : String)
  /-- Anything else, which requests replace. -/
  | plain (text : String)
  deriving Repr, DecidableEq

namespace LayerFilter

def isExpression : LayerFilter → Bool
  | expression _ => true
  | plain _ => false

/-- The text that requests add to. -/
def prior? : Option LayerFilter → Option String
  | some (expression text) => some text
  | _ => none

/-- What starts a condition of an OGR source. -/
def whereKeyword : String := "WHERE "

/-- A text without the keyword in front, in any letter case; `none` if it does not start so. -/
def withoutWhere? (text : String) : Option String :=
  let keyword := whereKeyword.toList
  let cs := text.toList
  if Chars.same keyword (cs.take keyword.length) then some (String.ofList (cs.drop keyword.length))
  else none

/-- An expression as the connection wants it: in parentheses where it becomes part of a statement
of the database. -/
def body (connection : Connection) (text : String) : String :=
  match connection with
  | .postGis | .oracleSpatial | .plugin | .sqlPlugin => "(" ++ text ++ ")"
  | _ => text

/-- Both a prior expression and a new one; only the new one if there is no other. -/
def conjunction (prior : Option String) (text : String) : String :=
  match prior with
  | some other => "((" ++ other ++ ") and " ++ text ++ ")"
  | none => text

/-- The filter of a layer after an expression has been installed.  An OGR source gets the keyword
in front, once, unless it has an expression without it. -/
def install (connection : Connection) (existing : Option LayerFilter) (text : String) : String :=
  let prior := prior? existing
  let text := body connection text
  if connection = .ogr then
    match prior with
    | none => whereKeyword ++ text
    | some other =>
        match withoutWhere? other with
        | some rest => whereKeyword ++ conjunction (some rest) text
        | none => conjunction prior text
  else conjunction prior text

end LayerFilter

end FilterEncoding
