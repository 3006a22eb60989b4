import FilterEncoding.Proofs.Gml.Oriented
import FilterEncoding.Proofs.Gml.Positions

/-!
# Curves and surfaces of several pieces

A curve of several segments has the positions of all of them, one behind the other, if each
position has an element of its own.  Of several position lists it has the first one only.  A
surface of several patches is one polygon: the exterior rings of all patches but the first are
among its interior rings.

* `IsSegmented`, `IsPatched` — curves and surfaces whose positions are all in their pieces.
* `shape_of_pieces` — the shape of a curve and of a surface, from those of their pieces.
-/

namespace FilterEncoding.Gml

open FilterEncoding.Geometry (Polygon Position Shape)
open FilterEncoding.Xml (Node)

/-! ## Curves -/

/-- How the positions of a segment are written: in one list or each in an element of its own. -/
inductive SegmentEncoding where
  | posList
  | pos

/-- The positions of a segment are written in an encoding. -/
def SegmentEncoding.Holds : SegmentEncoding → Node → Prop
  | posList, s => ∃ l, s.descendantsNamed ["posList"] = [l]
  | pos, s => s.descendantsNamed ["posList"] = [] ∧ s.descendantsNamed ["pos"] ≠ []

/-- The positions that a curve has of those of its first and its later segments. -/
def SegmentEncoding.joined : SegmentEncoding → List Position → List (List Position) → List Position
  | posList, first, _ => first
  | pos, first, later => first ++ later.flatten

/-- A curve whose positions are all in its segments, in the same encoding in each of them. -/
structure IsSegmented (encoding : SegmentEncoding) (n : Node) : Prop where
  name : n.name? = some "Curve"
  holds : ∀ s ∈ n.outermostBelow ["LineStringSegment"], encoding.Holds s
  around : ∀ d ∈ n.aroundBelow ["LineStringSegment"], ∀ name ∈ ["posList", "pos"],
    d.named name = false

namespace IsSegmented

variable {encoding : SegmentEncoding} {n : Node}

/-- The lists and the positions of a curve are those of its segments. -/
theorem descendantsNamed_eq (h : IsSegmented encoding n) {name : String}
    (hname : name ∈ ["posList", "pos"]) : n.descendantsNamed [name] =
      (n.outermostBelow ["LineStringSegment"]).flatMap (Node.descendantsNamed [name]) := by
  refine Node.descendantsNamed_flatMap ?_ fun d hd _ hmem => ?_
  · simp only [List.mem_cons, List.not_mem_nil, or_false] at hname
    rcases hname with rfl | rfl <;> decide
  · obtain rfl := List.mem_singleton.1 hmem
    exact h.around d hd _ hname

/-- The positions of a curve, from those of its segments. -/
theorem positions_eq (h : IsSegmented encoding n) {inherited : Nat} {first : List Position}
    {later : List (List Position)}
    (hread : List.Forall₂ (fun s ps => positions inherited s = .ok ps)
      (n.outermostBelow ["LineStringSegment"]) (first :: later)) :
    positions inherited n = .ok (encoding.joined first later) := by
  have hlist : n.descendantsNamed ["posList"] = _ := h.descendantsNamed_eq (by decide)
  have hpos : n.descendantsNamed ["pos"] = _ := h.descendantsNamed_eq (by decide)
  have hholds := h.holds
  cases encoding with
  | posList =>
      -- the first list of the curve is that of its first segment, and no other list is read
      obtain ⟨s, more, hfirst, -, hsegments⟩ := List.forall₂_cons_right_iff.1 hread
      rw [hsegments] at hlist hholds
      obtain ⟨l, hl⟩ := hholds s List.mem_cons_self
      rw [List.flatMap_cons, hl, List.singleton_append] at hlist
      rw [positions_of_posList hlist, ← positions_of_posList hl, hfirst]
      rfl
  | pos =>
      have hnone : n.descendantsNamed ["posList"] = [] := by
        rw [hlist, List.flatMap_eq_nil_iff]
        exact fun s hs => (hholds s hs).1
      have hparts : List.Forall₂
          (fun s ps => (s.descendantsNamed ["pos"]).mapM posPosition = .ok ps)
          (n.outermostBelow ["LineStringSegment"]) (first :: later) :=
        forall₂_imp_of_mem (fun s hs ps hps => by
          rwa [← positions_of_pos (hholds s hs).1 (hholds s hs).2]) hread
      have hsome : n.descendantsNamed ["pos"] ≠ [] := by
        obtain ⟨s, more, -, -, hsegments⟩ := List.forall₂_cons_right_iff.1 hread
        rw [hpos, hsegments, List.flatMap_cons]
        exact List.append_ne_nil_of_left_ne_nil
          (hholds s (hsegments ▸ List.mem_cons_self)).2 _
      rw [positions_of_pos hnone hsome, hpos, mapM_flatMap_of_forall₂ hparts]
      rfl

/-- A curve has the positions of all its segments if each position has an element of its own, or if
there is one segment. -/
theorem joined_eq_flatten_iff {inherited : Nat} {first : List Position}
    {later : List (List Position)}
    (hread : List.Forall₂ (fun s ps => positions inherited s = .ok ps)
      (n.outermostBelow ["LineStringSegment"]) (first :: later)) :
    encoding.joined first later = (first :: later).flatten ↔ encoding = .pos ∨ later = [] := by
  cases encoding with
  | pos => simp [SegmentEncoding.joined]
  | posList =>
      -- a list that is read is not empty, so what is missing makes a difference
      have hne : ∀ ps ∈ first :: later, ps ≠ [] := fun ps hps => by
        obtain ⟨s, -, hs⟩ := exists_mem_of_forall₂ hread hps
        exact positions_ne_nil hs
      rw [List.forall_mem_cons] at hne
      have hlater : later.flatten = [] ↔ later = [] := by
        rw [List.flatten_eq_nil_iff]
        refine ⟨fun hnil => ?_, ?_⟩
        · exact List.eq_nil_iff_forall_not_mem.2 fun ps hps => hne.2 ps hps (hnil ps hps)
        · rintro rfl
          exact List.forall_mem_nil _
      rw [SegmentEncoding.joined, List.flatten_cons, List.self_eq_append_right, hlater]
      simp

end IsSegmented

/-! ## Surfaces -/

/-- A surface whose rings are all in its patches. -/
structure IsPatched (n : Node) : Prop where
  name : n.name? = some "Surface"
  around : ∀ d ∈ n.aroundBelow ["PolygonPatch"], d.named "LinearRing" = false

/-- All rings of the polygons, the exterior ring of the first one in front. -/
def joinedPatches (first : Polygon) (later : List Polygon) : Polygon :=
  ⟨first.exterior, first.interiors ++ later.flatMap fun p => p.exterior :: p.interiors⟩

theorem polygon_eq_ok_iff {inherited : Nat} {n : Node} {p : Polygon} :
    polygon inherited n = .ok p ↔ ∃ rings : List Position × List (List Position),
      (n.descendantsNamed ["LinearRing"]).mapM (positions inherited) = .ok (rings.1 :: rings.2) ∧
        Polygon.ofRings rings.1 rings.2 = p := by
  constructor
  · intro h
    obtain ⟨rings, hrings, h⟩ := exists_of_bind_eq_ok h
    cases rings with
    | nil => cases h
    | cons exterior interiors => exact ⟨(exterior, interiors), hrings, Except.ok.inj h⟩
  · rintro ⟨⟨exterior, interiors⟩, hrings, rfl⟩
    rw [polygon, hrings]
    rfl

/-- The polygon of a surface, from those of its patches. -/
theorem IsPatched.polygon_eq {n : Node} (h : IsPatched n) {inherited : Nat} {first : Polygon}
    {later : List Polygon}
    (hread : List.Forall₂ (fun m p => polygon inherited m = .ok p)
      (n.outermostBelow ["PolygonPatch"]) (first :: later)) :
    polygon inherited n = .ok (joinedPatches first later) := by
  have hrings : n.descendantsNamed ["LinearRing"] =
      (n.outermostBelow ["PolygonPatch"]).flatMap (Node.descendantsNamed ["LinearRing"]) := by
    refine Node.descendantsNamed_flatMap (by decide) fun d hd _ hmem => ?_
    obtain rfl := List.mem_singleton.1 hmem
    exact h.around d hd
  simp only [polygon_eq_ok_iff] at hread
  obtain ⟨parts, hparts, hmap⟩ := forall₂_exists_iff.1 hread
  obtain ⟨rings, more, rfl, rfl, rfl⟩ := List.map_eq_cons_iff.1 hmap
  have hall := mapM_flatMap_of_forall₂ (List.forall₂_map_right_iff.2 hparts)
  rw [← hrings] at hall
  refine polygon_eq_ok_iff.2 ⟨(rings.1, rings.2 ++ more.flatMap fun r => r.1 :: r.2), hall, ?_⟩
  simp [joinedPatches, Polygon.ofRings, List.map_flatMap, List.flatMap_map]

/-- The interior rings of a surface are those of its patches if and only if there is one patch. -/
theorem interiors_joinedPatches_iff (first : Polygon) (later : List Polygon) :
    (joinedPatches first later).interiors = (first :: later).flatMap Polygon.interiors ↔
      later = [] := by
  have hlength (ps : List Polygon) : (ps.flatMap fun p => p.exterior :: p.interiors).length =
      ps.length + (ps.flatMap Polygon.interiors).length := by
    induction ps with
    | nil => rfl
    | cons p ps ih =>
        rw [List.flatMap_cons, List.flatMap_cons, List.length_append, List.length_append, ih,
          List.length_cons, List.length_cons]
        omega
  -- each later patch adds its exterior ring, so the numbers of rings differ
  rw [joinedPatches, List.flatMap_cons, List.append_cancel_left_eq]
  constructor
  · intro heq
    have hcount := congrArg List.length heq
    rw [hlength] at hcount
    exact List.length_eq_zero_iff.1 (by omega)
  · rintro rfl
    rfl

/-! ## Shapes -/

/-- The shape of a curve and of a surface, from those of their pieces.  In a curve with several
position lists the positions of the later segments are missing.  In a surface of several patches
the exterior rings of the later ones are interior rings. -/
theorem shape_of_pieces (n : Node) :
    (∀ encoding first later, IsSegmented encoding n →
      List.Forall₂ (fun s ps => positions (dimension 2 n) s = .ok ps)
        (n.outermostBelow ["LineStringSegment"]) (first :: later) →
      shape n = .ok (oriented (innerReference? n) (.lineString (encoding.joined first later)),
          innerReference? n) ∧
        (encoding.joined first later = (first :: later).flatten ↔ encoding = .pos ∨ later = [])) ∧
    (∀ first later, IsPatched n →
      List.Forall₂ (fun m p => polygon (dimension 2 n) m = .ok p)
        (n.outermostBelow ["PolygonPatch"]) (first :: later) →
      shape n = .ok (oriented (innerReference? n) (.polygon (joinedPatches first later)),
          innerReference? n) ∧
        ((joinedPatches first later).interiors = (first :: later).flatMap Polygon.interiors ↔
          later = [])) := by
  constructor
  · intro encoding first later h hread
    refine ⟨shape_of_writtenShape? ?_, IsSegmented.joined_eq_flatten_iff hread⟩
    rw [writtenShape?, h.name, Option.getD_some]
    show some (Shape.lineString <$> positions (dimension 2 n) n) = _
    rw [h.positions_eq hread]
    rfl
  · intro first later h hread
    refine ⟨shape_of_writtenShape? ?_, interiors_joinedPatches_iff first later⟩
    rw [writtenShape?, h.name, Option.getD_some]
    show some (Shape.polygon <$> polygon (dimension 2 n) n) = _
    rw [h.polygon_eq hread]
    rfl

def segment (positions : List Node) : Node :=
  .element "LineStringSegment" [] positions

def road (segments : List Node) : Node :=
  .element "Curve" [] [.element "segments" [] segments]

/-- A patch with three corners. -/
def patch (a b c : String) : Node :=
  .element "PolygonPatch" [] [.element "exterior" [] [.element "LinearRing" []
    [.element "pos" [] [.text a], .element "pos" [] [.text b], .element "pos" [] [.text c]]]]

def surface (patches : List Node) : Node :=
  .element "Surface" [] [.element "patches" [] patches]

theorem shape_of_pieces_road :
    shape (road [segment [.element "pos" [] [.text "0 1"], .element "pos" [] [.text "2 3"]],
        segment [.element "pos" [] [.text "4 5"]]]) =
      .ok (.lineString [⟨0, 1⟩, ⟨2, 3⟩, ⟨4, 5⟩], none) ∧
    shape (surface [patch "0 0" "0 1" "1 1"]) =
      .ok (.polygon ⟨[⟨0, 0⟩, ⟨0, 1⟩, ⟨1, 1⟩, ⟨0, 0⟩], []⟩, none) := by
  constructor
  · refine ((shape_of_pieces _).1 .pos [⟨0, 1⟩, ⟨2, 3⟩] [[⟨4, 5⟩]] ⟨rfl, ?_, ?_⟩
      (.cons (by rfl) (.cons (by rfl) .nil))).1
    · exact List.forall_mem_cons.2 ⟨⟨rfl, List.cons_ne_nil _ _⟩,
        List.forall_mem_singleton.2 ⟨rfl, List.cons_ne_nil _ _⟩⟩
    · exact List.forall_mem_singleton.2 (by decide)
  · refine ((shape_of_pieces _).2 ⟨[⟨0, 0⟩, ⟨0, 1⟩, ⟨1, 1⟩, ⟨0, 0⟩], []⟩ [] ⟨rfl, ?_⟩
      (.cons (by rfl) .nil)).1
    exact List.forall_mem_singleton.2 (by decide)

/-- Of two lists the second one is lost, and of two patches the second one becomes a hole. -/
theorem shape_of_pieces_lists_patches :
    shape (road [segment [.element "posList" [] [.text "0 1 2 3"]],
        segment [.element "posList" [] [.text "2 3 4 5"]]]) =
      .ok (.lineString [⟨0, 1⟩, ⟨2, 3⟩], none) ∧
    shape (surface [patch "0 0" "0 1" "1 1", patch "5 5" "5 6" "6 6"]) =
      .ok (.polygon ⟨[⟨0, 0⟩, ⟨0, 1⟩, ⟨1, 1⟩, ⟨0, 0⟩],
        [[⟨5, 5⟩, ⟨5, 6⟩, ⟨6, 6⟩, ⟨5, 5⟩]]⟩, none) := by
  refine ⟨shape_of_writtenShape? ?_, rfl⟩
  have hpositions : posListPositions 2 (.element "posList" [] [.text "0 1 2 3"]) =
      .ok [⟨0, 1⟩, ⟨2, 3⟩] := by
    have htext : trimmedText (.element "posList" [] [.text "0 1 2 3"]) = "0 1 2 3" := by
      decide +kernel
    have hnumbers : numbers "0 1 2 3" = [0, 1, 2, 3] := by decide +kernel
    rw [posListPositions, htext, hnumbers]
    simp [dimension, Node.attribute?, everyPosition]
  exact congrArg (fun read => some (Shape.lineString <$> read)) hpositions

end FilterEncoding.Gml
