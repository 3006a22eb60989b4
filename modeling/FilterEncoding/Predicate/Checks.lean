import FilterEncoding.Layer.Basic
import FilterEncoding.Predicate.Basic
import FilterEncoding.Predicate.FeatureId

/-!
# Checks against a layer

What a filter may not ask of a layer.  Each check reports the first offending node, where a node
comes before its children.
-/

namespace FilterEncoding

/-- Why a filter is refused for a layer. -/
inductive Offence where
  /-- A comparison with the bounds of the feature. -/
  | invalidOperand (property : String)
  /-- A comparison with an attribute the layer does not have. -/
  | unknownProperty (property : String)
  /-- A feature id of another layer. -/
  | foreignFeatureId (id layer : String)
  deriving Repr, DecidableEq

def Offence.message : Offence → String
  | invalidOperand property => "operand '" ++ property ++ "' is invalid in comparison"
  | unknownProperty property => "property '" ++ property ++ "' is unknown"
  | foreignFeatureId id layer =>
      "feature id " ++ id ++ " not consistent with feature type name " ++ layer

namespace Predicate

/-- The bounds of a feature, which no comparison may be about. -/
def boundsProperty : String := "gml:boundedBy"

/-- Refuse the first node that offends. -/
def refuse (offence? : Predicate → Option Offence) (p : Predicate) : Except Offence Unit :=
  match p.nodes.findSome? offence? with
  | some offence => .error offence
  | none => .ok ()

/-- No comparison is about the bounds of the feature. -/
def checkOperands : Predicate → Except Offence Unit :=
  refuse fun n =>
    n.comparedProperty?.bind fun name =>
      if name = boundsProperty then some (.invalidOperand name) else none

/-- Every comparison is about a visible attribute of the layer. -/
def checkProperties (layer : Layer) : Predicate → Except Offence Unit :=
  refuse fun n =>
    n.comparedProperty?.bind fun name =>
      if layer.hasAttribute name then none else some (.unknownProperty name)

/-- A feature id with a type name other than the layer's. -/
def foreignId? (layerName : String) (id : String) : Option Offence :=
  (FeatureId.typeName? id).bind fun typeName =>
    if Text.same typeName layerName then none else some (.foreignFeatureId id layerName)

/-- Every type name in front of a feature id is the layer's. -/
def checkFeatureIds (layerName : String) : Predicate → Except Offence Unit :=
  refuse fun
    | featureIds tokens => (FeatureId.parts tokens).findSome? (foreignId? layerName)
    | _ => none

end Predicate

end FilterEncoding
