import FilterEncoding.Text

/-!
# Feature ids

A feature is named by its id, with the name of its type and a dot in front or without.  One token
may be a comma list of them.
-/

namespace FilterEncoding.FeatureId

/-- An id without the type name in front of its last dot. -/
def withoutType (token : String) : String :=
  Text.afterLast '.' token

/-- The comma-separated parts of tokens. -/
def parts (tokens : List String) : List String :=
  tokens.flatMap (Text.pieces ',')

/-- The ids of tokens, without blanks around the parts and without type names.  Empty ones are
dropped. -/
def bareIds (tokens : List String) : List String :=
  ((parts tokens).map fun part => withoutType (Text.trim part)).filter (· != "")

/-- The type name in front of the last dot. -/
def typeName? (token : String) : Option String :=
  (Text.cutLast '.' token).map (·.1)

end FilterEncoding.FeatureId
