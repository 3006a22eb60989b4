/-!
# Shapes

Planar geometry as it occurs in spatial predicates.  The rings of a polygon that is built here are
closed; a polygon that comes from elsewhere keeps its rings until its positions are mapped.
-/

namespace FilterEncoding.Geometry

structure Position where
  x : Float
  y : Float
  deriving Repr, DecidableEq

namespace Position

/-- Numeric equality of both coordinates; a negative zero equals a positive one. -/
def meets (p q : Position) : Bool :=
  p.x == q.x && p.y == q.y

/-- Exchange the axes. -/
def swapped (p : Position) : Position := ⟨p.y, p.x⟩

@[simp]
theorem swapped_swapped (p : Position) : p.swapped.swapped = p := rfl

end Position

/-- Two numbers in ascending order. -/
def ordered (a b : Float) : Float × Float :=
  if a < b then (a, b) else (b, a)

/-- Repeat the first position of a ring at its end, unless it ends there already. -/
def closeRing : List Position → List Position
  | [] => []
  | p :: ps => if (ps.getLast?.getD p).meets p then p :: ps else p :: ps ++ [p]

structure Polygon where
  exterior : List Position
  interiors : List (List Position)
  deriving Repr, DecidableEq

namespace Polygon

/-- The polygon with these rings, each of them closed. -/
def ofRings (exterior : List Position) (interiors : List (List Position)) : Polygon :=
  ⟨closeRing exterior, interiors.map closeRing⟩

/-- Map all positions and close the rings. -/
def map (f : Position → Position) (p : Polygon) : Polygon :=
  ofRings (p.exterior.map f) (p.interiors.map (·.map f))

end Polygon

/-- The shapes that predicates are compared with.  Triangles, which are of the kind of polygons too,
are left out: no encoding is read as one, and nothing turns another shape into one. -/
inductive Shape where
  | point (p : Position)
  | line (first last : Position)
  | lineString (positions : List Position)
  | polygon (p : Polygon)
  | multiPoint (positions : List Position)
  | multiLineString (lines : List (List Position))
  | multiPolygon (polygons : List Polygon)
  | collection (members : List Shape)
  /-- A rectangle given by its least and its greatest corner. -/
  | rectangle (least greatest : Position)
  deriving Repr

/-- The dimension class of a shape. -/
inductive ShapeKind where
  | point
  | line
  | polygon
  deriving Repr, DecidableEq

namespace Shape

mutual

/-- The kind of a shape.  A multi geometry has the kind of its members and a collection that of
its first member, so an empty collection has none. -/
def kind? : Shape → Option ShapeKind
  | point _ | multiPoint _ => some .point
  | line _ _ | lineString _ | multiLineString _ => some .line
  | polygon _ | multiPolygon _ | rectangle _ _ => some .polygon
  | collection members => firstKind? members

/-- The kind of the first of several shapes. -/
def firstKind? : List Shape → Option ShapeKind
  | [] => none
  | s :: _ => s.kind?

end

mutual

/-- Map all positions.  Rings are closed afterwards and the corners of a rectangle put in order. -/
def map (f : Position → Position) : Shape → Shape
  | point p => point (f p)
  | line first last => line (f first) (f last)
  | lineString positions => lineString (positions.map f)
  | polygon p => polygon (p.map f)
  | multiPoint positions => multiPoint (positions.map f)
  | multiLineString lines => multiLineString (lines.map (·.map f))
  | multiPolygon polygons => multiPolygon (polygons.map (·.map f))
  | collection members => collection (mapAll f members)
  | rectangle least greatest =>
      let xs := ordered (f least).x (f greatest).x
      let ys := ordered (f least).y (f greatest).y
      rectangle ⟨xs.1, ys.1⟩ ⟨xs.2, ys.2⟩

/-- Map all positions of several shapes. -/
def mapAll (f : Position → Position) : List Shape → List Shape
  | [] => []
  | s :: ss => map f s :: mapAll f ss

end

/-- Exchange the axes of all positions, for reference systems that give the latitude first. -/
def swapped (s : Shape) : Shape :=
  s.map Position.swapped

end Shape

end FilterEncoding.Geometry
