import FilterEncoding.Geometry.WellKnownText
import FilterEncoding.Proofs.Number.Characters

/-!
# The characters of well-known text

Well-known text has no quotes, so that it can stand between quotes as it is.
-/

namespace FilterEncoding.Geometry

def Unquoted (s : String) : Prop :=
  '\'' ∉ s.toList

instance (s : String) : Decidable (Unquoted s) :=
  inferInstanceAs (Decidable (_ ∉ s.toList))

namespace Unquoted

variable {s t : String}

theorem append (hs : Unquoted s) (ht : Unquoted t) : Unquoted (s ++ t) := by
  unfold Unquoted at hs ht ⊢
  rw [String.toList_append, List.mem_append, not_or]
  exact ⟨hs, ht⟩

theorem text (x : Float) : Unquoted (Number.text x) := by
  intro h
  exact absurd (Number.isNumberChar_of_mem_text h) (by decide)

/-- A list with commas between its items. -/
theorem intercalate {items : List String} (h : ∀ item ∈ items, Unquoted item) :
    Unquoted (String.intercalate "," items) := by
  induction items with
  | nil => exact List.not_mem_nil
  | cons item items ih =>
      have hitem := h item List.mem_cons_self
      cases items with
      | nil => exact hitem
      | cons next items =>
          rw [String.intercalate_cons_cons]
          have hcomma : Unquoted "," := by decide
          exact (hitem.append hcomma).append
            (ih fun other hother => h other (List.mem_cons_of_mem item hother))

theorem listed {items : List String} (h : ∀ item ∈ items, Unquoted item) :
    Unquoted (listed items) := by
  have hopen : Unquoted "(" := by decide
  have hclose : Unquoted ")" := by decide
  exact (hopen.append (intercalate h)).append hclose

theorem tagged {tag : String} {items : List String} (htag : Unquoted tag)
    (h : ∀ item ∈ items, Unquoted item) : Unquoted (tagged tag items) := by
  unfold Geometry.tagged
  split
  · have hempty : Unquoted " EMPTY" := by decide
    exact htag.append hempty
  · exact htag.append (listed h)

theorem map {α : Type} {f : α → String} (hf : ∀ a, Unquoted (f a)) (as : List α) :
    ∀ item ∈ as.map f, Unquoted item := by
  intro item hitem
  obtain ⟨a, -, rfl⟩ := List.mem_map.1 hitem
  exact hf a

end Unquoted

theorem Position.unquoted_wkt (p : Position) : Unquoted p.wkt := by
  have hblank : Unquoted " " := by decide
  exact ((Unquoted.text p.x).append hblank).append (Unquoted.text p.y)

theorem unquoted_positionsWkt (positions : List Position) : Unquoted (positionsWkt positions) :=
  .listed (.map Position.unquoted_wkt positions)

theorem Polygon.unquoted_rings (p : Polygon) : ∀ ring ∈ p.rings, Unquoted ring :=
  .map unquoted_positionsWkt _

theorem Polygon.unquoted_memberWkt (p : Polygon) : Unquoted p.memberWkt := by
  refine .listed ?_
  split
  · exact List.forall_mem_singleton.2 (unquoted_positionsWkt [])
  · exact p.unquoted_rings

namespace Shape

mutual

theorem unquoted_wkt : ∀ s : Shape, Unquoted s.wkt
  | point p => .tagged (by decide) (List.forall_mem_singleton.2 p.unquoted_wkt)
  | line first last =>
      .tagged (by decide) (.map Position.unquoted_wkt [first, last])
  | lineString positions => .tagged (by decide) (.map Position.unquoted_wkt positions)
  | polygon p => .tagged (by decide) p.unquoted_rings
  | multiPoint positions =>
      .tagged (by decide) (.map (fun p => .listed (List.forall_mem_singleton.2 p.unquoted_wkt))
        positions)
  | multiLineString lines => .tagged (by decide) (.map unquoted_positionsWkt lines)
  | multiPolygon polygons => .tagged (by decide) (.map Polygon.unquoted_memberWkt polygons)
  | collection members => .tagged (by decide) (unquoted_wktAll members)
  | rectangle least greatest =>
      .tagged (by decide) (List.forall_mem_singleton.2 (unquoted_positionsWkt _))

theorem unquoted_wktAll : ∀ shapes : List Shape, ∀ text ∈ wktAll shapes, Unquoted text
  | [] => List.forall_mem_nil _
  | s :: shapes => List.forall_mem_cons.2 ⟨s.unquoted_wkt, unquoted_wktAll shapes⟩

end

end Shape

end FilterEncoding.Geometry
