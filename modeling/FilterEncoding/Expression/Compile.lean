import FilterEncoding.Expression.Common
import FilterEncoding.Expression.Mapserver
import FilterEncoding.Expression.Sql

/-!
# Compiling filters

The expression of a filter in each dialect.  That a dialect cannot say something is no error: there
is no expression then.
-/

namespace FilterEncoding

open FilterEncoding.Geometry (Engine)

/-- A pattern whose escape character would end the literal it stands in. -/
structure UnsafeEscape where
  character : Char
  deriving Repr, DecidableEq

/-- A character in quotes, with a backslash in front of a quote or backslash. -/
def quotedChar (c : Char) : String :=
  "'" ++ (if c = '\'' ∨ c = '\\' then "\\" else "") ++ String.singleton c ++ "'"

def UnsafeEscape.message (e : UnsafeEscape) : String :=
  "character " ++ quotedChar e.character ++ " is not allowed as an escape character"

namespace Dialect

/-- The language of a dialect for a layer. -/
def language (d : Dialect) (layer : Layer) (engine : Engine) : Language String :=
  match d with
  | mapserver => Mapserver.language layer
  | sql => Sql.language layer
  | common => Common.language layer engine

/-- The expression of a filter, if the dialect has one. -/
def compile (d : Dialect) (layer : Layer) (engine : Engine) (p : Predicate) :
    Except UnsafeEscape (Option String) :=
  match (d.language layer engine).compile p with
  | .ok text => .ok (some text)
  | .error .inexpressible => .ok none
  | .error (.unsafeEscape c) => .error ⟨c⟩

end Dialect

end FilterEncoding
