import FilterEncoding.Layer.Basic
import FilterEncoding.Predicate.Basic

/-!
# Property names

A filter may name an attribute with a namespace prefix, with the group it belongs to, or by a
published alias.  Normalisation turns every name into the name of the layer's attribute and leaves
everything else as it is.
-/

namespace FilterEncoding

/-- The properties that GML gives to every feature.  They keep their prefix in comparisons. -/
def gmlProperties : List String :=
  ["gml:name", "gml:description", "gml:descriptionReference", "gml:identifier", "gml:boundedBy",
   "@gml:id"]

/-- A name without its namespace prefix.  A name with more than one colon has none. -/
def unqualifiedName (name : String) : String :=
  match Text.cutFirst ':' name with
  | some (_, base) => if base.toList.contains ':' then name else base
  | none => name

/-- A text without an opening, compared without regard to letter case. -/
def dropOpening? (opening cs : List Char) : Option (List Char) :=
  if Chars.same opening (cs.take opening.length) then some (cs.drop opening.length) else none

/-- What stands behind the first `c`; the whole text when it has none. -/
def behindFirst (c : Char) (cs : List Char) : List Char :=
  match Chars.cutFirst c cs with
  | some (_, after) => after
  | none => cs

/-- A name without a group and a slash in front.  A namespace prefix may stand in front of the
group, and one in front of the rest. -/
def ungroupedName? (groups : List String) (name : String) : Option String :=
  match Chars.cutFirst '/' name.toList with
  | none => none
  | some (beforeSlash, _) =>
      let grouped := if beforeSlash.contains ':' then behindFirst ':' name.toList else name.toList
      groups.findSome? fun group =>
        match dropOpening? group.toList grouped with
        | some ('/' :: rest) => some (String.ofList (behindFirst ':' rest))
        | _ => none

/-- The attribute of a layer that a name without prefix stands for. -/
def attributeName (layer : Layer) (name : String) : String :=
  let ungrouped := (ungroupedName? layer.groups name).getD name
  (layer.resolveAlias ungrouped).getD ungrouped

namespace Predicate

/-- Drop the namespace prefixes of property names.  A comparison with a property of GML is left as
it is. -/
def unqualified : Predicate → Predicate
  | comparison op left right like =>
      if (comparison op left right like).comparedProperty?.any gmlProperties.contains then
        comparison op left right like
      else comparison op left.unqualified right.unqualified like
  | property name => property (unqualifiedName name)
  | unary op operand => unary op operand.unqualified
  | binary op left right => binary op left.unqualified right.unqualified
  | spatial op left right => spatial op left.unqualified right.unqualified
  | leaf => leaf

/-- Rename all properties. -/
def rename (f : String → String) : Predicate → Predicate
  | property name => property (f name)
  | unary op operand => unary op (operand.rename f)
  | binary op left right => binary op (left.rename f) (right.rename f)
  | comparison op left right like => comparison op (left.rename f) (right.rename f) like
  | spatial op left right => spatial op (left.rename f) (right.rename f)
  | leaf => leaf

/-- A predicate with the attribute names of a layer. -/
def normalized (layer : Layer) (p : Predicate) : Predicate :=
  p.unqualified.rename (attributeName layer)

end Predicate

end FilterEncoding
