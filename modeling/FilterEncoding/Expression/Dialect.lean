import FilterEncoding.Layer.Basic
import FilterEncoding.Number.Numeric
import FilterEncoding.Predicate.FeatureId

/-!
# Dialects

The three expression languages, and the decisions they share: when a value is written as a bare
number, and which ids a list of feature ids stands for.
-/

namespace FilterEncoding

inductive Dialect where
  /-- Bracketed attributes without spatial functions. -/
  | mapserver
  /-- Conditions for databases. -/
  | sql
  /-- Bracketed attributes with spatial functions. -/
  | common
  deriving Repr, DecidableEq

namespace Dialect

/-- Whether a text may be written as a bare number.  Databases take decimal numerals only. -/
def isNumber : Dialect → String → Bool
  | sql => Number.isDecimal
  | mapserver | common => Number.isNumeric

/-- Whether a value of an attribute is written as a string: if the attribute is declared to hold
characters, or the value is no number or missing. -/
def isString (d : Dialect) (layer : Layer) (name : String) : Option String → Bool
  | none => true
  | some value => (layer.attributeType name).any FieldType.isCharacter || !d.isNumber value

/-- Whether the bounds of a range are written as strings; both are written alike. -/
def isStringRange (d : Dialect) (layer : Layer) (name lower upper : String) : Bool :=
  d.isString layer name (some lower) || !d.isNumber upper

/-- The ids of a list and whether they are written as strings; one that is no number makes strings
of all.  A list without ids has no expression. -/
def idList? (d : Dialect) (tokens : List String) : Option (List String × Bool) :=
  match FeatureId.bareIds tokens with
  | [] => none
  | ids => some (ids, ids.any fun id => !d.isNumber id)

end Dialect

/-- Alternatives in parentheses. -/
def anyOf (alternatives : List String) : String :=
  "(" ++ String.intercalate " OR " alternatives ++ ")"

end FilterEncoding
