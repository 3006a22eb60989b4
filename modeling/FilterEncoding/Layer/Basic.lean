import FilterEncoding.Distance
import FilterEncoding.Layer.FieldType
import FilterEncoding.Text

/-!
# Layers

What the rest of the library asks about the layer a filter is for: its storage, its attributes and
the escaping rules of its expressions.  A layer is a record of answers, so that any metadata source
can supply one.
-/

namespace FilterEncoding

/-- The storage behind a layer. -/
inductive Connection where
  /-- Local files. -/
  | files
  | postGis
  | oracleSpatial
  | ogr
  /-- A plugin whose source accepts SQL. -/
  | sqlPlugin
  | plugin
  | wfs
  | other
  deriving Repr, DecidableEq

/-- Whether the storage takes SQL conditions. -/
def Connection.isSqlCapable (c : Connection) : Bool :=
  c = .postGis || c = .oracleSpatial || c = .ogr || c = .sqlPlugin

/-- Write each `c` twice. -/
def doubled (c : Char) (s : String) : String :=
  String.ofList (s.toList.flatMap fun x => if x = c then [x, x] else [x])

/-- An attribute name in double quotes, with each inner one doubled. -/
def quotedIdentifier (name : String) : String :=
  "\"" ++ doubled '"' name ++ "\""

/-- Put a backslash in front of each backslash and quote. -/
def backslashed (s : String) : String :=
  String.ofList (s.toList.flatMap fun c =>
    if c = '\\' ∨ c = '"' ∨ c = '\'' then ['\\', c] else [c])

/-- A layer. -/
structure Layer where
  name : String
  connection : Connection
  /-- The declared type of an attribute. -/
  attributeType : String → Option FieldType
  /-- Whether an attribute is visible. -/
  hasAttribute : String → Bool
  /-- The attribute that holds the feature ids. -/
  idAttribute : Option String
  /-- Write an attribute name in SQL. -/
  quoteIdentifier : String → String := quotedIdentifier
  /-- Escape a value for a single-quoted SQL literal. -/
  escapeSqlLiteral : String → String := doubled '\''
  /-- Escape a value for a quoted string of an expression. -/
  escapeString : String → String := backslashed
  /-- Whether the source evaluates spatial functions. -/
  supportsGeos : Bool := false
  /-- The reference system of the layer's geometry. -/
  layerCrs : Option String := none
  /-- The reference system of the request. -/
  mapCrs : Option String := none
  /-- The units distances are measured in. -/
  units : Option DistanceUnit := none
  /-- The attribute behind a published alias. -/
  resolveAlias : String → Option String := fun _ => none
  /-- The attribute groups, whose names may stand in front of an attribute name. -/
  groups : List String := []

end FilterEncoding
