import FilterEncoding.Geometry.Shape

/-!
# Axis-parallel rectangles

The rectangle of a bounding-box predicate, with its corners as they were given.
-/

namespace FilterEncoding.Geometry

structure Rectangle where
  minx : Float
  miny : Float
  maxx : Float
  maxy : Float
  deriving Repr, DecidableEq

namespace Rectangle

/-- The least rectangle around two positions. -/
def spanning (p q : Position) : Rectangle :=
  let xs := ordered p.x q.x
  let ys := ordered p.y q.y
  ⟨xs.1, ys.1, xs.2, ys.2⟩

/-- The rectangle as a ring of five positions, clockwise from the lower left corner. -/
def toShape (r : Rectangle) : Shape :=
  .polygon (.ofRings
    [⟨r.minx, r.miny⟩, ⟨r.minx, r.maxy⟩, ⟨r.maxx, r.maxy⟩, ⟨r.maxx, r.miny⟩, ⟨r.minx, r.miny⟩] [])

/-- Whether the rectangle is the extent of all longitudes and latitudes, up to rounding. -/
def isWorld (r : Rectangle) : Bool :=
  (r.minx + 180.0).abs < 1e-5 && (r.miny + 90.0).abs < 1e-5 &&
    (r.maxx - 180.0).abs < 1e-5 && (r.maxy - 90.0).abs < 1e-5

/-- Exchange the axes. -/
def swapped (r : Rectangle) : Rectangle :=
  ⟨r.miny, r.minx, r.maxy, r.maxx⟩

@[simp]
theorem swapped_swapped (r : Rectangle) : r.swapped.swapped = r := rfl

end Rectangle

end FilterEncoding.Geometry
