import FilterEncoding.Geometry.Rectangle
import Mathlib.Data.List.Basic

/-!
# Exchanging the axes

Exchanging the axes of a shape exchanges them in each of its positions, and does nothing else.  A
ring that is closed stays closed (`Polygon.map_swapped_ofRings`), and the closing position is
one that the ring has anyway (`mem_closeRing`).

* `Shape.positions` — the positions of a shape.
* `Shape.mem_positions_swapped` — the positions of a shape with its axes exchanged.
-/

namespace FilterEncoding.Geometry

namespace Position

theorem eq_swapped_iff (p q : Position) : p = q.swapped ↔ p.swapped = q := by
  constructor
  · rintro rfl
    rfl
  · rintro rfl
    rfl

theorem meets_swapped (p q : Position) : p.swapped.meets q.swapped = p.meets q :=
  Bool.and_comm _ _

theorem mem_map_swapped {p : Position} {ps : List Position} :
    p ∈ ps.map swapped ↔ p.swapped ∈ ps := by
  constructor
  · intro h
    obtain ⟨q, hq, rfl⟩ := List.mem_map.1 h
    exact hq
  · exact fun h => List.mem_map.2 ⟨p.swapped, h, swapped_swapped p⟩

end Position

/-! ## Rings -/

/-- A closed ring has no other positions than the open one. -/
@[simp]
theorem mem_closeRing {p : Position} {ring : List Position} : p ∈ closeRing ring ↔ p ∈ ring := by
  cases ring with
  | nil => rfl
  | cons first rest =>
      rw [closeRing]
      split
      · rfl
      · rw [List.mem_append, List.mem_singleton]
        exact or_iff_left_of_imp fun h => h ▸ List.mem_cons_self

theorem map_swapped_closeRing (ring : List Position) :
    (closeRing ring).map Position.swapped = closeRing (ring.map Position.swapped) := by
  cases ring with
  | nil => rfl
  | cons first rest =>
      have hlast : ((rest.map Position.swapped).getLast?.getD first.swapped) =
          (rest.getLast?.getD first).swapped := by
        rw [List.getLast?_map]
        cases rest.getLast? <;> rfl
      rw [closeRing, List.map_cons, closeRing, hlast, Position.meets_swapped]
      split
      · rfl
      · rw [List.map_append]
        rfl

/-- A ring is closed once, if its first position is one that equals itself. -/
theorem closeRing_closeRing {ring : List Position} (h : ∀ p ∈ ring, p.meets p = true) :
    closeRing (closeRing ring) = closeRing ring := by
  cases ring with
  | nil => rfl
  | cons first rest =>
      rw [closeRing]
      split
      · next hclosed => rw [closeRing, if_pos hclosed]
      · have hlast : ((rest ++ [first]).getLast?.getD first).meets first = true := by
          rw [List.getLast?_concat]
          exact h first List.mem_cons_self
        rw [List.cons_append, closeRing, if_pos hlast]

/-- The polygon with the rings whose axes are exchanged. -/
theorem Polygon.map_swapped_ofRings {exterior : List Position} {interiors : List (List Position)}
    (hexterior : ∀ p ∈ exterior, p.meets p = true)
    (hinteriors : ∀ ring ∈ interiors, ∀ p ∈ ring, p.meets p = true) :
    (ofRings exterior interiors).map Position.swapped =
      ofRings (exterior.map Position.swapped) (interiors.map (·.map Position.swapped)) := by
  have hring (ring : List Position) (h : ∀ p ∈ ring, p.meets p = true) :
      closeRing ((closeRing ring).map Position.swapped) =
        closeRing (ring.map Position.swapped) := by
    rw [map_swapped_closeRing, closeRing_closeRing]
    intro p hp
    rw [← Position.swapped_swapped p, Position.meets_swapped]
    exact h _ (Position.mem_map_swapped.1 hp)
  simp only [Polygon.map, ofRings, List.map_map, hring exterior hexterior]
  congr 1
  exact List.map_congr_left fun ring hmem => hring ring (hinteriors ring hmem)

/-! ## Positions -/

/-- The positions of a polygon, ring by ring. -/
def Polygon.positions (p : Polygon) : List Position :=
  p.exterior ++ p.interiors.flatten

theorem Polygon.mem_positions_map_swapped {p : Polygon} {q : Position} :
    q ∈ (p.map Position.swapped).positions ↔ q.swapped ∈ p.positions := by
  simp [Polygon.positions, Polygon.map, ofRings, Position.mem_map_swapped]

theorem ordered_cases (a b : Float) : ordered a b = (a, b) ∨ ordered a b = (b, a) := by
  unfold ordered
  split
  · exact .inl rfl
  · exact .inr rfl

namespace Shape

mutual

/-- The positions of a shape in order.  Of a rectangle these are its four corners. -/
def positions : Shape → List Position
  | point p => [p]
  | line first last => [first, last]
  | lineString ps => ps
  | polygon p => p.positions
  | multiPoint ps => ps
  | multiLineString lines => lines.flatten
  | multiPolygon polygons => polygons.flatMap Polygon.positions
  | collection members => positionsAll members
  | rectangle least greatest =>
      [least, ⟨least.x, greatest.y⟩, greatest, ⟨greatest.x, least.y⟩]

def positionsAll : List Shape → List Position
  | [] => []
  | s :: ss => positions s ++ positionsAll ss

end

/-- The corners of a rectangle are the same in whatever order its bounds come. -/
theorem mem_positions_swapped_rectangle {least greatest p : Position} :
    p ∈ (rectangle least greatest).swapped.positions ↔
      p.swapped ∈ (rectangle least greatest).positions := by
  obtain ⟨px, py⟩ := p
  obtain ⟨minx, miny⟩ := least
  obtain ⟨maxx, maxy⟩ := greatest
  rw [swapped, map]
  rcases ordered_cases miny maxy with hx | hx <;> rcases ordered_cases minx maxx with hy | hy <;>
    simp only [Position.swapped, hx, hy, positions, List.mem_cons, Position.mk.injEq,
      List.not_mem_nil, or_false] <;>
    tauto

mutual

/-- The positions of a shape with its axes exchanged are those of the shape, with the axes of each
exchanged. -/
theorem mem_positions_swapped {p : Position} (s : Shape) :
    p ∈ s.swapped.positions ↔ p.swapped ∈ s.positions := by
  cases s with
  | rectangle least greatest => exact mem_positions_swapped_rectangle
  | collection members => exact mem_positionsAll_swapped members
  | polygon q => exact Polygon.mem_positions_map_swapped
  | multiPolygon polygons =>
      simp [swapped, map, positions, List.flatMap_map, Polygon.mem_positions_map_swapped]
  | multiLineString lines =>
      simp [swapped, map, positions, Position.mem_map_swapped]
  | point q => simp [swapped, map, positions, Position.eq_swapped_iff]
  | line first last => simp [swapped, map, positions, Position.eq_swapped_iff]
  | lineString ps => exact Position.mem_map_swapped
  | multiPoint ps => exact Position.mem_map_swapped

theorem mem_positionsAll_swapped {p : Position} (ss : List Shape) :
    p ∈ positionsAll (mapAll Position.swapped ss) ↔ p.swapped ∈ positionsAll ss := by
  cases ss with
  | nil => simp [mapAll, positionsAll]
  | cons s ss =>
      rw [mapAll, positionsAll, positionsAll, List.mem_append, List.mem_append,
        mem_positionsAll_swapped ss, ← mem_positions_swapped s]
      rfl

end

end Shape

/-- The corners of a rectangle with its axes exchanged.  The ring goes the other way around. -/
theorem Rectangle.mem_positions_swapped {r : Rectangle} {p : Position} :
    p ∈ r.swapped.toShape.positions ↔ p.swapped ∈ r.toShape.positions := by
  obtain ⟨px, py⟩ := p
  simp only [toShape, swapped, Shape.positions, Polygon.positions, Polygon.ofRings, List.map_nil,
    List.flatten_nil, List.append_nil, mem_closeRing, List.mem_cons, List.not_mem_nil, or_false,
    Position.swapped, Position.mk.injEq]
  tauto

end FilterEncoding.Geometry
