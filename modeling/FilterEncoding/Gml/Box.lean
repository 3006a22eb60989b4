import FilterEncoding.Crs
import FilterEncoding.Geometry.Rectangle
import FilterEncoding.Gml.Positions

/-!
# Boxes and envelopes

The two elements that give a rectangle.  The corners are kept as they are written; of an envelope
with the latitude first, the axes are exchanged.
-/

namespace FilterEncoding.Gml

open FilterEncoding.Geometry (Position Rectangle)
open FilterEncoding.Xml (Node)

/-- The corner that a tuple of a box gives; it has exactly two values. -/
def boxCorner (n : Node) (tuple : String) : Except Fault Position :=
  match tupleValues n tuple with
  | [x, y] => .ok ⟨Number.leadingValue x, Number.leadingValue y⟩
  | _ => .error (.badBoxTuple tuple)

/-- The corners of a box, from its `coordinates` or from two `coord` elements. -/
def boxCorners (n : Node) : Except Fault (Position × Position) :=
  match n.child? "coordinates" with
  | some coordinates =>
      match tuples coordinates with
      | [first, second] => do
          let p ← boxCorner coordinates first
          let q ← boxCorner coordinates second
          pure (p, q)
      | _ => .error .boxTupleCount
  | none =>
      match n.content.filter (Node.named "coord") with
      | [first, second] => do
          let p ← coordPosition first
          let q ← coordPosition second
          pure (p, q)
      | _ => .error .boxWithoutCorners

/-- The rectangle of a `Box` element and the reference system it names. -/
def box (n : Node) : Except Fault (Rectangle × Option String) := do
  let (p, q) ← boxCorners n
  pure (⟨p.x, p.y, q.x, q.y⟩, reference? n)

/-- The rectangle of an `Envelope` element and the reference system it names. -/
def envelope (n : Node) : Except Fault (Rectangle × Option String) :=
  match n.descendant? "lowerCorner", n.descendant? "upperCorner" with
  | none, _ => .error .noLowerCorner
  | some _, none => .error .noUpperCorner
  | some lower, some upper =>
      match numbers (trimmedText lower), numbers (trimmedText upper) with
      | minx :: miny :: _, maxx :: maxy :: _ =>
          let corners : Rectangle := ⟨minx, miny, maxx, maxy⟩
          let reference := reference? n
          .ok (if Crs.latitudeFirst reference then corners.swapped else corners, reference)
      | _, _ => .error .shortCorner

end FilterEncoding.Gml
