import FilterEncoding.Layer.Basic

/-!
# Layer schemas

Layer metadata, declared piece by piece.  Names are kept as they are written; look-ups ignore the
case of ASCII letters, and prefer a name that matches exactly.
-/

namespace FilterEncoding

/-- Set the value of a key.  A key keeps the place of its first declaration. -/
def assign {α : Type} (key : String) (value : α) : List (String × α) → List (String × α)
  | [] => [(key, value)]
  | (k, v) :: rest => if k = key then (key, value) :: rest else (k, v) :: assign key value rest

/-- The value of a key, or else of the first key that equals it up to letter case. -/
def lookupIgnoringCase {α : Type} (key : String) (entries : List (String × α)) : Option α :=
  (entries.lookup key).or ((entries.find? fun (k, _) => Text.same k key).map (·.2))

/-- The metadata of a layer, with every table in the order of declaration. -/
structure LayerSchema where
  name : String
  connection : Connection := .files
  supportsGeos : Bool := false
  /-- The declared types by attribute name. -/
  fields : List (String × FieldType) := []
  /-- The visible attributes. -/
  items : List String := []
  /-- The attributes by alias. -/
  aliases : List (String × String) := []
  groups : List String := []
  idAttribute : Option String := none
  layerCrs : Option String := none
  mapCrs : Option String := none
  units : Option DistanceUnit := none
  deriving Repr, DecidableEq

namespace LayerSchema

/-- Declare a visible attribute. -/
def item (s : LayerSchema) (name : String) : LayerSchema :=
  if s.items.contains name then s else { s with items := s.items ++ [name] }

/-- Declare a visible attribute with its type; a type declared before is replaced. -/
def field (s : LayerSchema) (name : String) (type : FieldType) : LayerSchema :=
  { s.item name with fields := assign name type s.fields }

/-- Declare an alias for an attribute; what the alias stood for before is forgotten. -/
def withAlias (s : LayerSchema) (item name : String) : LayerSchema :=
  { s with aliases := assign name item s.aliases }

/-- Declare an attribute group. -/
def group (s : LayerSchema) (name : String) : LayerSchema :=
  { s with groups := s.groups ++ [name] }

end LayerSchema

/-- One declaration about a layer. -/
inductive Declaration where
  | connection (kind : Connection)
  /-- Whether the source evaluates spatial functions. -/
  | supportsGeos (enabled : Bool)
  /-- A visible attribute with its type. -/
  | field (name : String) (type : FieldType)
  /-- A visible attribute. -/
  | item (name : String)
  /-- Another name for an attribute. -/
  | aliasFor (item name : String)
  | group (name : String)
  | idAttribute (name : String)
  | layerCrs (reference : String)
  | mapCrs (reference : String)
  | units (unit : DistanceUnit)
  deriving Repr, DecidableEq

namespace LayerSchema

/-- The metadata after one more declaration. -/
def declare (s : LayerSchema) : Declaration → LayerSchema
  | .connection kind => { s with connection := kind }
  | .supportsGeos enabled => { s with supportsGeos := enabled }
  | .field name type => s.field name type
  | .item name => s.item name
  | .aliasFor item name => s.withAlias item name
  | .group name => s.group name
  | .idAttribute name => { s with idAttribute := some name }
  | .layerCrs reference => { s with layerCrs := some reference }
  | .mapCrs reference => { s with mapCrs := some reference }
  | .units unit => { s with units := some unit }

/-- The metadata of a layer, declared piece by piece. -/
def ofDeclarations (name : String) (declarations : List Declaration) : LayerSchema :=
  declarations.foldl declare { name }

/-- The declared type of an attribute. -/
def attributeType (s : LayerSchema) (name : String) : Option FieldType :=
  lookupIgnoringCase name s.fields

/-- Whether an attribute is visible. -/
def hasAttribute (s : LayerSchema) (name : String) : Bool :=
  s.items.any (Text.same name)

/-- The attribute behind an alias: of the first alias that equals the name up to letter case. -/
def resolveAlias (s : LayerSchema) (name : String) : Option String :=
  (s.aliases.find? fun (key, _) => Text.same key name).map (·.2)

/-- The layer this metadata describes. -/
def toLayer (s : LayerSchema) : Layer where
  name := s.name
  connection := s.connection
  attributeType := s.attributeType
  hasAttribute := s.hasAttribute
  idAttribute := s.idAttribute
  supportsGeos := s.supportsGeos
  layerCrs := s.layerCrs
  mapCrs := s.mapCrs
  units := s.units
  resolveAlias := s.resolveAlias
  groups := s.groups

end LayerSchema

end FilterEncoding
