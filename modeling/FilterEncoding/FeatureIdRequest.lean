import FilterEncoding.Predicate.Basic
import FilterEncoding.Predicate.FeatureId

/-!
# Feature-id requests

A request may list feature ids in place of a filter.  They are grouped by the layer they belong to,
and each group can be turned into a filter.
-/

namespace FilterEncoding

/-- The ids that a request asks of one layer, in their order. -/
structure FeatureIdGroup where
  layer : String
  ids : List String
  deriving Repr, DecidableEq

/-- Why an id belongs to no layer. -/
inductive FeatureIdError where
  /-- Its type name is not among those of the request. -/
  | unknownType (token : String)
  /-- It has no type name, and the request does not name exactly one layer. -/
  | noType (token : String)
  deriving Repr, DecidableEq

namespace FeatureIdError

def message : FeatureIdError → String
  | unknownType token =>
      "feature id error: feature id " ++ token ++ " does not match any requested type name"
  | noType token => "feature id error: feature id " ++ token ++ " has no type name prefix"

end FeatureIdError

namespace FeatureIdGroup

/-- The predicate of a group. -/
def toPredicate (g : FeatureIdGroup) : Predicate :=
  .featureIds (g.ids.map fun id => g.layer ++ "." ++ id)

/-- The layer and the id that a token stands for, among the layers of a request.  If the request
names no layers, any type name is a layer. -/
def resolveToken (layers : List String) (token : String) : Except FeatureIdError (String × String) :=
  match Text.cutLast '.' token with
  | some (typeName, id) =>
      match layers.find? fun layer => Text.same layer typeName with
      | some layer => .ok (layer, id)
      | none => if layers.isEmpty then .ok (typeName, id) else .error (.unknownType token)
  | none =>
      match layers with
      | [only] => .ok (only, token)
      | _ => .error (.noType token)

/-- Add an id to the group of its layer, which is the last one if it is new. -/
def addId (layer id : String) : List FeatureIdGroup → List FeatureIdGroup
  | [] => [⟨layer, [id]⟩]
  | g :: gs =>
      if g.layer = layer then { g with ids := g.ids ++ [id] } :: gs
      else g :: addId layer id gs

/-- The tokens of a request: comma-separated, without blanks around them and without empty ones. -/
def tokens (request : String) : List String :=
  ((Text.pieces ',' request).map Text.trim).filter (· != "")

/-- The groups of a request, in the order in which their layers occur first. -/
def resolve (layers : List String) (request : String) :
    Except FeatureIdError (List FeatureIdGroup) := do
  let resolved ← (tokens request).mapM (resolveToken layers)
  pure (resolved.foldl (fun groups (layer, id) => addId layer id groups) [])

/-- A character in an attribute value of a document. -/
def escapedChar (c : Char) : List Char :=
  if c = '&' then "&amp;".toList
  else if c = '<' then "&lt;".toList
  else if c = '>' then "&gt;".toList
  else if c = '"' then "&quot;".toList
  else if c = '\'' then "&apos;".toList
  else [c]

/-- A text in an attribute value of a document. -/
def escaped (s : String) : String :=
  String.ofList (s.toList.flatMap escapedChar)

/-- The filter document of a group. -/
def toDocument (g : FeatureIdGroup) : String :=
  "<Filter>" ++
    String.join (g.ids.map fun id =>
      "<FeatureId fid=\"" ++ escaped g.layer ++ "." ++ escaped id ++ "\"/>") ++
    "</Filter>"

end FeatureIdGroup

end FilterEncoding
