/-!
# Attribute types

The declared type of a layer's attribute, as its metadata names it.
-/

namespace FilterEncoding

inductive FieldType where
  | character
  | date
  | numeric
  /-- Any type that plays no part in compiling filters. -/
  | other (name : String)
  deriving Repr, DecidableEq

namespace FieldType

/-- The type names of metadata, in lower case. -/
def metadataNames : List (String × FieldType) :=
  [("character", character), ("string", character), ("date", date), ("datetime", date),
   ("time", date), ("integer", numeric), ("long", numeric), ("real", numeric),
   ("double", numeric), ("float", numeric), ("numeric", numeric)]

/-- The type with a metadata name in any letter case. -/
def ofMetadata (name : String) : FieldType :=
  (metadataNames.lookup name.toLower).getD (other name)

def isCharacter (t : FieldType) : Bool :=
  t = character

end FieldType

end FilterEncoding
