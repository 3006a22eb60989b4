import FilterEncoding.Expression.Compile
import FilterEncoding.LayerFilter
import FilterEncoding.Predicate.Checks
import FilterEncoding.Predicate.Document
import FilterEncoding.Predicate.Names

/-!
# Query plans

How a layer is queried for a filter: with the rectangle of its bounding box, with an expression in
the dialect of the layer, with both, or with neither.
-/

namespace FilterEncoding

open FilterEncoding.Geometry (Engine Rectangle)

/-- The text of a filter in a dialect. -/
structure Expression where
  dialect : Dialect
  text : String
  deriving Repr, DecidableEq

/-- How a query applies a filter.  Without a rectangle and an expression it applies nothing. -/
structure Plan where
  rectangle : Option Rectangle
  expression : Option Expression
  deriving Repr, DecidableEq

/-- Why a filter document does not give a plan. -/
inductive Rejection where
  | document (e : DocumentError)
  | offence (e : Offence)
  | unsafeEscape (e : UnsafeEscape)
  deriving Repr, DecidableEq

namespace Rejection

def message : Rejection → String
  | document e => e.message
  | offence e => e.message
  | unsafeEscape e => e.message

end Rejection

namespace Layer

/-- The dialect a layer's source takes. -/
def dialect (layer : Layer) : Dialect :=
  if layer.connection.isSqlCapable then .sql
  else if layer.supportsGeos then .common
  else .mapserver

/-- The top bounding box of a filter in the reference system of the layer. -/
def queryRectangle (layer : Layer) (engine : Engine) (p : Predicate) : Option Rectangle :=
  p.topBox?.map fun (r, crs) =>
    engine.projectRectangle r (crs.or layer.mapCrs) layer.layerCrs

/-- The plan for a filter.  A bounding box alone needs no expression on a database. -/
def plan (layer : Layer) (engine : Engine) (p : Predicate) : Except UnsafeEscape Plan := do
  let rectangle := layer.queryRectangle engine p
  if layer.dialect = .sql && p.isSimple && p.isBox then pure ⟨rectangle, none⟩
  else
    let text ← layer.dialect.compile layer engine p
    pure ⟨rectangle, text.map fun text => ⟨layer.dialect, text⟩⟩

/-- The plan for a filter document: read it, check its operands, normalise its names, check
properties and feature ids, and plan. -/
def apply (layer : Layer) (engine : Engine) (document : String) : Except Rejection Plan := do
  let written ← (Predicate.ofDocument document).mapError .document
  written.checkOperands.mapError .offence
  let p := written.normalized layer
  (p.checkProperties layer).mapError .offence
  (p.checkFeatureIds layer.name).mapError .offence
  (layer.plan engine p).mapError .unsafeEscape

end Layer

end FilterEncoding
