import FilterEncoding.Geometry.Rectangle

/-!
# Bounds

The least rectangle around a shape.  Shapes without positions have none, and only the exterior
ring of a polygon counts.
-/

namespace FilterEncoding.Geometry

/-- Extend an interval to a number. -/
def extend (interval : Float × Float) (a : Float) : Float × Float :=
  if a > interval.2 then (interval.1, a)
  else if a < interval.1 then (a, interval.2)
  else interval

/-- The bounds of some positions. -/
def boundsOf : List Position → Option Rectangle
  | [] => none
  | p :: ps =>
      let xs := ps.foldl (fun interval q => extend interval q.x) (p.x, p.x)
      let ys := ps.foldl (fun interval q => extend interval q.y) (p.y, p.y)
      some (.spanning ⟨xs.1, ys.1⟩ ⟨xs.2, ys.2⟩)

/-- The bounds of two rectangles together. -/
def Rectangle.union (r s : Rectangle) : Rectangle :=
  let least := fun a b : Float => if a < b then a else b
  let greatest := fun a b : Float => if a > b then a else b
  .spanning ⟨least r.minx s.minx, least r.miny s.miny⟩
    ⟨greatest r.maxx s.maxx, greatest r.maxy s.maxy⟩

/-- The bounds of two parts, of which either may have none. -/
def unionBounds : Option Rectangle → Option Rectangle → Option Rectangle
  | some r, some s => some (r.union s)
  | some r, none => some r
  | none, s => s

namespace Shape

mutual

/-- The bounds of a shape. -/
def bounds? : Shape → Option Rectangle
  | point p => some (.spanning p p)
  | line first last => some (.spanning first last)
  | lineString positions => boundsOf positions
  | polygon p => boundsOf p.exterior
  | multiPoint positions => boundsOf positions
  | multiLineString lines => boundsOf lines.flatten
  | multiPolygon polygons => boundsOf (polygons.flatMap (·.exterior))
  | collection members => boundsFrom none members
  | rectangle least greatest => some ⟨least.x, least.y, greatest.x, greatest.y⟩

/-- The bounds of a part seen so far and several shapes. -/
def boundsFrom (seen : Option Rectangle) : List Shape → Option Rectangle
  | [] => seen
  | s :: ss => boundsFrom (unionBounds seen s.bounds?) ss

end

end Shape

end FilterEncoding.Geometry
