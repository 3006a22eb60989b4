import FilterEncoding.Geometry.Shape
import FilterEncoding.Number.Positional

/-!
# Well-known text

The text of a shape, such as `POLYGON((0 0,0 1,1 1,0 0))`.  Commas have no blank behind them, and a
shape without parts is written with the word `EMPTY`.
-/

namespace FilterEncoding.Geometry

/-- A list in parentheses. -/
def listed (items : List String) : String :=
  "(" ++ String.intercalate "," items ++ ")"

/-- A tagged list; without items it is empty. -/
def tagged (tag : String) (items : List String) : String :=
  if items.isEmpty then tag ++ " EMPTY" else tag ++ listed items

def Position.wkt (p : Position) : String :=
  Number.text p.x ++ " " ++ Number.text p.y

/-- A sequence of positions in parentheses. -/
def positionsWkt (positions : List Position) : String :=
  listed (positions.map Position.wkt)

/-- The rings of a polygon, each in parentheses.  An empty exterior ring is left out. -/
def Polygon.rings (p : Polygon) : List String :=
  let rings := if p.exterior.isEmpty then p.interiors else p.exterior :: p.interiors
  rings.map positionsWkt

/-- A polygon among others.  Without rings it is written as one empty ring. -/
def Polygon.memberWkt (p : Polygon) : String :=
  listed (if p.rings.isEmpty then [positionsWkt []] else p.rings)

namespace Shape

mutual

def wkt : Shape → String
  | point p => tagged "POINT" [p.wkt]
  | line first last => tagged "LINESTRING" [first.wkt, last.wkt]
  | lineString positions => tagged "LINESTRING" (positions.map Position.wkt)
  | polygon p => tagged "POLYGON" p.rings
  | multiPoint positions => tagged "MULTIPOINT" (positions.map fun p => listed [p.wkt])
  | multiLineString lines => tagged "MULTILINESTRING" (lines.map positionsWkt)
  | multiPolygon polygons => tagged "MULTIPOLYGON" (polygons.map Polygon.memberWkt)
  | collection members => tagged "GEOMETRYCOLLECTION" (wktAll members)
  | rectangle least greatest =>
      tagged "POLYGON" [positionsWkt
        [⟨greatest.x, least.y⟩, ⟨greatest.x, greatest.y⟩, ⟨least.x, greatest.y⟩,
         ⟨least.x, least.y⟩, ⟨greatest.x, least.y⟩]]

/-- The texts of several shapes. -/
def wktAll : List Shape → List String
  | [] => []
  | s :: ss => s.wkt :: wktAll ss

end

end Shape

end FilterEncoding.Geometry
