import FilterEncoding.Gml.Box

/-!
# Geometry elements

The shape of a geometry element with the reference system of its positions.  Positions come out
with the longitude or easting first, whatever order the reference system gives them in.
-/

namespace FilterEncoding.Gml

open FilterEncoding.Geometry (Polygon Shape)
open FilterEncoding.Xml (Node)

/-- The polygon of all rings below an element, the exterior ring first. -/
def polygon (inherited : Nat) (n : Node) : Except Fault Polygon := do
  match ← (n.descendantsNamed ["LinearRing"]).mapM (positions inherited) with
  | exterior :: interiors => pure (.ofRings exterior interiors)
  | [] => throw (.noRing (n.name?.getD ""))

/-- Read all members below a multi geometry; there has to be one. -/
def members {α : Type} (names : List String) (read : Node → Except Fault α) (n : Node) :
    Except Fault (List α) :=
  match n.descendantsNamed names with
  | [] => .error (.noMembers (n.name?.getD ""))
  | member :: more => (member :: more).mapM read

/-- The shape of an element whose positions are still in the order they are written in; `none` for
an element that is no point, line, polygon or multi geometry. -/
def writtenShape? (n : Node) : Option (Except Fault Shape) :=
  let d := dimension 2 n
  match n.name?.getD "" with
  | "Point" | "PointType" => some (Shape.point <$> firstPosition d n)
  | "LineString" | "Curve" => some (Shape.lineString <$> positions d n)
  | "Polygon" | "Surface" => some (Shape.polygon <$> polygon d n)
  | "MultiPoint" => some (Shape.multiPoint <$> members ["Point"] (firstPosition d) n)
  | "MultiLineString" | "MultiCurve" =>
      some (Shape.multiLineString <$> members ["LineString", "LineStringSegment"] (positions d) n)
  | "MultiPolygon" | "MultiSurface" =>
      some (Shape.multiPolygon <$> members ["Polygon", "PolygonPatch"] (polygon d) n)
  | _ => none

/-- The reference system of a geometry: its own, or else the first one named below it. -/
def innerReference? (n : Node) : Option String :=
  n.nodes.findSome? reference?

/-- The shape of a geometry element and its reference system.  Boxes and envelopes become
polygons. -/
def shape (n : Node) : Except Fault (Shape × Option String) :=
  match writtenShape? n with
  | some written => do
      let s ← written
      let reference := innerReference? n
      pure (if Crs.latitudeFirst reference then s.swapped else s, reference)
  | none =>
      match n.name?.getD "" with
      | "Box" => (fun (r, reference) => (r.toShape, reference)) <$> box n
      | "Envelope" => (fun (r, reference) => (r.toShape, reference)) <$> envelope n
      | other => .error (.unsupported other)

end FilterEncoding.Gml
