import FilterEncoding.Proofs.Gml.Oriented
import FilterEncoding.Proofs.Readers
import FilterEncoding.Proofs.Xml.Nesting

/-!
# Members of a multi geometry

A multi geometry is read as the shapes of its members, each of them read as if it did not declare
a dimension.

* `CollectionKind` — the multi geometries and their members.
* `shape_eq_multi_iff` — when a multi geometry has the shapes of its members.
-/

namespace FilterEncoding.Gml

open FilterEncoding.Geometry (Polygon Position Shape)
open FilterEncoding.Xml (Attribute Node)

/-! ## Kinds -/

/-- The multi geometries, by what their members are. -/
inductive CollectionKind where
  | points
  | lines
  | polygons

namespace CollectionKind

/-- What a member is read as. -/
def Part : CollectionKind → Type
  | points => Position
  | lines => List Position
  | polygons => Polygon

/-- The name of a multi geometry. -/
def collection : CollectionKind → String
  | points => "MultiPoint"
  | lines => "MultiLineString"
  | polygons => "MultiPolygon"

/-- The name of a member that is a geometry itself. -/
def element : CollectionKind → String
  | points => "Point"
  | lines => "LineString"
  | polygons => "Polygon"

/-- The names that a member may have. -/
def names : CollectionKind → List String
  | points => ["Point"]
  | lines => ["LineString", "LineStringSegment"]
  | polygons => ["Polygon", "PolygonPatch"]

def read : (kind : CollectionKind) → Nat → Node → Except Fault kind.Part
  | points => firstPosition
  | lines => positions
  | polygons => polygon

def swapped : (kind : CollectionKind) → kind.Part → kind.Part
  | points => Position.swapped
  | lines => List.map Position.swapped
  | polygons => Polygon.map Position.swapped

/-- The shape of a member that stands alone. -/
def single : (kind : CollectionKind) → kind.Part → Shape
  | points => Shape.point
  | lines => Shape.lineString
  | polygons => Shape.polygon

def multi : (kind : CollectionKind) → List kind.Part → Shape
  | points => Shape.multiPoint
  | lines => Shape.multiLineString
  | polygons => Shape.multiPolygon

variable {kind : CollectionKind}

/-- A member with the longitude or easting first. -/
def oriented (reference : Option String) (part : kind.Part) : kind.Part :=
  if Crs.latitudeFirst reference then kind.swapped part else part

theorem oriented_single (reference : Option String) (part : kind.Part) :
    Gml.oriented reference (kind.single part) = kind.single (oriented reference part) := by
  unfold Gml.oriented oriented
  split
  · cases kind <;> rfl
  · rfl

theorem oriented_multi (reference : Option String) (parts : List kind.Part) :
    Gml.oriented reference (kind.multi parts) = kind.multi (parts.map (oriented reference)) := by
  unfold Gml.oriented oriented
  split
  · cases kind <;> rfl
  · rw [List.map_id']

theorem single_injective : Function.Injective kind.single := by
  cases kind <;> exact fun _ _ h => by injection h

theorem multi_injective : Function.Injective kind.multi := by
  cases kind <;> exact fun _ _ h => by injection h

theorem writtenShape?_element {m : Node} (h : m.name? = some kind.element) :
    writtenShape? m = some (kind.single <$> kind.read (dimension 2 m) m) := by
  cases kind <;>
    · rw [writtenShape?, h]
      rfl

theorem writtenShape?_collection {n : Node} (h : n.name? = some kind.collection) :
    writtenShape? n =
      some (kind.multi <$> members kind.names (kind.read (dimension 2 n)) n) := by
  cases kind <;>
    · rw [writtenShape?, h]
      rfl

/-- The shape of a member that stands alone. -/
theorem shape_element {m : Node} (h : m.name? = some kind.element) :
    shape m = (fun part => (kind.single (oriented (innerReference? m) part), innerReference? m)) <$>
      kind.read (dimension 2 m) m := by
  rw [shape_eq_map (writtenShape?_element h), Functor.map_map]
  simp only [oriented_single]

theorem exists_part_of_shape {m : Node} (hname : m.name? = some kind.element) {s : Shape}
    {reference : Option String} (h : shape m = .ok (s, reference)) :
    innerReference? m = reference ∧ ∃ part, kind.single part = s := by
  rw [shape_element hname] at h
  obtain ⟨part, -, hpart⟩ := exists_of_map_eq_ok h
  obtain ⟨rfl, rfl⟩ := Prod.mk.inj hpart
  exact ⟨rfl, _, rfl⟩

theorem shape_collection {n : Node} (h : n.name? = some kind.collection) :
    shape n = (fun parts =>
      (kind.multi (parts.map (oriented (innerReference? n))), innerReference? n)) <$>
        members kind.names (kind.read (dimension 2 n)) n := by
  rw [shape_eq_map (writtenShape?_collection h), Functor.map_map]
  simp only [oriented_multi]

end CollectionKind

/-! ## Dimensions -/

/-- The same element without the dimension it declares. -/
def withoutDimension (n : Node) : Node :=
  withAttributes (List.filter (·.name != "srsDimension")) n

section WithoutDimension

variable (n : Node)

theorem dimension_withoutDimension (inherited : Nat) :
    dimension inherited (withoutDimension n) = max 2 inherited := by
  cases n with
  | element name attributes content =>
      have hnone : ((attributes.filter (·.name != "srsDimension")).find?
          (·.name == "srsDimension")) = none := by
        simp
      rw [dimension, withoutDimension, withAttributes, Node.attribute?, hnone]
      rfl
  | _ => rfl

theorem reference?_withoutDimension : reference? (withoutDimension n) = reference? n := by
  cases n with
  | element name attributes content =>
      have hname : (fun a : Attribute =>
          decide ((a.name != "srsDimension") = true ∧ (a.name == "srsName") = true)) =
          (·.name == "srsName") := by
        funext a
        by_cases ha : a.name = "srsName" <;> simp [ha]
      rw [reference?, reference?, withoutDimension, withAttributes, Node.attribute?,
        Node.attribute?, List.find?_filter, hname]
  | _ => rfl

/-- An element that declares no dimension. -/
theorem withoutDimension_eq_self {n : Node} (h : n.attribute? "srsDimension" = none) :
    withoutDimension n = n := by
  cases n with
  | element name attributes content =>
      rw [Node.attribute?, Option.map_eq_none_iff, List.find?_eq_none] at h
      rw [withoutDimension, withAttributes,
        List.filter_eq_self.2 fun a ha => by simpa using h a ha]
  | _ => rfl

theorem innerReference?_withoutDimension {n : Node} {name : String} (h : n.name? = some name) :
    innerReference? (withoutDimension n) = innerReference? n := by
  have hname : (withoutDimension n).name? = some name := (name?_withAttributes _ n).trans h
  have hbelow : (withoutDimension n).descendants = n.descendants := descendants_withAttributes _ n
  rw [innerReference?, innerReference?, Node.nodes_of_name? h, Node.nodes_of_name? hname,
    List.findSome?_cons, List.findSome?_cons, reference?_withoutDimension, hbelow]

theorem read_withoutDimension (kind : CollectionKind) (d : Nat) :
    kind.read d (withoutDimension n) = kind.read d n := by
  cases kind with
  | points => exact firstPosition_withAttributes _ n d
  | lines => exact positions_withAttributes _ n d
  | polygons => exact polygon_withAttributes _ n d

end WithoutDimension

/-! ## Multi geometries -/

/-- A multi geometry that has neither a reference system nor a dimension of its own, with members
that are geometries themselves.  What is around the members names no reference system. -/
structure IsCollection (kind : CollectionKind) (n : Node) : Prop where
  name : n.name? = some kind.collection
  noReference : reference? n = none
  noDimension : n.attribute? "srsDimension" = none
  ne_nil : n.descendantsNamed kind.names ≠ []
  element : ∀ m ∈ n.descendantsNamed kind.names, m.name? = some kind.element
  around : ∀ d ∈ n.aroundBelow kind.names, reference? d = none

namespace IsCollection

variable {kind : CollectionKind} {n : Node} {reference : Option String}

/-- A multi geometry has the reference system of its members. -/
theorem innerReference?_eq (h : IsCollection kind n)
    (hmembers : ∀ m ∈ n.descendantsNamed kind.names, innerReference? m = reference) :
    innerReference? n = reference := by
  have houtermost : ∀ m ∈ n.outermostBelow kind.names, innerReference? m = reference :=
    fun m hm => hmembers m (Node.mem_descendantsNamed_of_mem_outermostBelow hm)
  have hfirst : innerReference? n = (n.outermostBelow kind.names).findSome? innerReference? := by
    rw [innerReference?, Node.nodes_of_name? h.name, List.findSome?_cons, h.noReference]
    exact Node.findSome?_descendants h.around
  -- all members name the same one, so the first member that is searched decides
  rw [hfirst]
  obtain ⟨m, more, hnodes⟩ := List.exists_cons_of_ne_nil (Node.outermostBelow_ne_nil h.ne_nil)
  rw [hnodes] at houtermost ⊢
  cases reference with
  | none => exact List.findSome?_eq_none_iff.2 houtermost
  | some value => rw [List.findSome?_cons, houtermost m List.mem_cons_self]

/-- The shape of a member without the dimension it declares. -/
theorem shape_withoutDimension_iff (h : IsCollection kind n) {m : Node}
    (hm : m ∈ n.descendantsNamed kind.names) (hreference : innerReference? m = reference)
    {part : kind.Part} :
    shape (withoutDimension m) = .ok (kind.single part, reference) ↔
      ∃ written, kind.read 2 m = .ok written ∧ kind.oriented reference written = part := by
  have hname : m.name? = some kind.element := h.element m hm
  have hname' : (withoutDimension m).name? = some kind.element :=
    (name?_withAttributes _ m).trans hname
  rw [CollectionKind.shape_element hname', innerReference?_withoutDimension hname,
    dimension_withoutDimension, read_withoutDimension, hreference, map_eq_ok_iff]
  simp only [Prod.mk.injEq, CollectionKind.single_injective.eq_iff, and_true]
  rfl

/-- A multi geometry has the shapes of its members as if these declared no dimension. -/
theorem shape_iff (h : IsCollection kind n)
    (hmembers : ∀ m ∈ n.descendantsNamed kind.names, innerReference? m = reference)
    {parts : List kind.Part} :
    shape n = .ok (kind.multi parts, reference) ↔
      List.Forall₂ (fun m part => shape (withoutDimension m) = .ok (kind.single part, reference))
        (n.descendantsNamed kind.names) parts := by
  have hdimension : dimension 2 n = 2 := by
    rw [dimension, h.noDimension]
    rfl
  rw [CollectionKind.shape_collection h.name, h.innerReference?_eq hmembers, hdimension,
    members_eq_mapM h.ne_nil, map_eq_ok_iff,
    forall₂_congr_of_mem fun m hm _ => h.shape_withoutDimension_iff hm (hmembers m hm),
    forall₂_exists_iff]
  simp only [Prod.mk.injEq, CollectionKind.multi_injective.eq_iff, and_true, mapM_eq_ok_iff]

end IsCollection

/-- A multi geometry has the shapes of its members if and only if none of them depends on the
dimension that the member declares. -/
theorem shape_eq_multi_iff {kind : CollectionKind} {n : Node} {shapes : List Shape}
    {reference : Option String} (h : IsCollection kind n)
    (hshapes : List.Forall₂ (fun m s => shape m = .ok (s, reference))
      (n.descendantsNamed kind.names) shapes) :
    ∃ parts, parts.map kind.single = shapes ∧
      (shape n = .ok (kind.multi parts, reference) ↔
        ∀ m ∈ n.descendantsNamed kind.names, shape (withoutDimension m) = shape m) := by
  have hparts : List.Forall₂ (fun m s => ∃ part, shape m = .ok (kind.single part, reference) ∧
      kind.single part = s) (n.descendantsNamed kind.names) shapes := by
    refine forall₂_imp_of_mem (fun m hm s hshape => ?_) hshapes
    obtain ⟨-, part, rfl⟩ := CollectionKind.exists_part_of_shape (h.element m hm) hshape
    exact ⟨part, hshape, rfl⟩
  have hmembers : ∀ m ∈ n.descendantsNamed kind.names, innerReference? m = reference := by
    intro m hm
    obtain ⟨s, -, hshape⟩ := exists_mem_of_forall₂ hshapes.flip hm
    exact (CollectionKind.exists_part_of_shape (h.element m hm) hshape).1
  obtain ⟨parts, hparts, hmap⟩ := forall₂_exists_iff.1 hparts
  exact ⟨parts, hmap, (h.shape_iff hmembers).trans (forall₂_eq_iff hparts)⟩

/-- A line with the elevation, written position by position. -/
def ridge : Node :=
  .element "LineString" [⟨"srsDimension", "3"⟩]
    [.element "pos" [] [.text "0 0 9"], .element "pos" [] [.text "1 1 9"]]

def valley : Node :=
  .element "LineString" [] [.element "coordinates" [] [.text "2,0 3,1"]]

def landscape (lines : List Node) : Node :=
  .element "MultiLineString" [] (lines.map fun line => .element "lineStringMember" [] [line])

theorem shape_eq_multi_iff_landscape :
    ∃ parts : List (List Position),
      parts.map Shape.lineString = [.lineString [⟨0, 0⟩, ⟨1, 1⟩], .lineString [⟨2, 0⟩, ⟨3, 1⟩]] ∧
        shape (landscape [ridge, valley]) = .ok (.multiLineString parts, none) := by
  have hmembers (P : Node → Prop) (hridge : P ridge) (hvalley : P valley) :
      ∀ m ∈ (landscape [ridge, valley]).descendantsNamed ["LineString", "LineStringSegment"],
        P m :=
    List.forall_mem_cons.2 ⟨hridge, List.forall_mem_singleton.2 hvalley⟩
  have hcollection : IsCollection .lines (landscape [ridge, valley]) := by
    refine ⟨rfl, rfl, rfl, List.cons_ne_nil _ _, hmembers _ rfl rfl, ?_⟩
    exact List.forall_mem_cons.2 ⟨rfl, List.forall_mem_singleton.2 rfl⟩
  obtain ⟨parts, hparts, hshape⟩ := shape_eq_multi_iff hcollection (.cons rfl (.cons rfl .nil))
  exact ⟨parts, hparts, hshape.2 (hmembers _ rfl (congrArg shape (withoutDimension_eq_self rfl)))⟩

def listedRidge : Node :=
  .element "LineString" [⟨"srsDimension", "3"⟩] [.element "posList" [] [.text "0 0 9 1 1 9"]]

/-- A member that declares the dimension of its list is read with two dimensions. -/
theorem shape_landscape_listedRidge :
    shape listedRidge = .ok (.lineString [⟨0, 0⟩, ⟨1, 1⟩], none) ∧
      shape (landscape [listedRidge]) =
        .ok (.multiLineString [[⟨0, 0⟩, ⟨9, 1⟩, ⟨1, 9⟩]], none) := by
  have hnumbers : numbers "0 0 9 1 1 9" = [0, 0, 9, 1, 1, 9] := by decide +kernel
  have hlist (inherited : Nat) : positions inherited listedRidge =
      posListPositions inherited (.element "posList" [] [.text "0 0 9 1 1 9"]) := rfl
  have hpositions : positions 3 listedRidge = .ok [⟨0, 0⟩, ⟨1, 1⟩] ∧
      positions 2 listedRidge = .ok [⟨0, 0⟩, ⟨9, 1⟩, ⟨1, 9⟩] := by
    have htext : trimmedText (.element "posList" [] [.text "0 0 9 1 1 9"]) = "0 0 9 1 1 9" := by
      decide +kernel
    rw [hlist, hlist, posListPositions, posListPositions, htext, hnumbers]
    simp [dimension, Node.attribute?, everyPosition]
  refine ⟨?_, ?_⟩
  · refine shape_of_writtenShape? ?_
    show some (Shape.lineString <$> positions 3 listedRidge) = _
    rw [hpositions.1]
    rfl
  · refine shape_of_writtenShape? ?_
    show some (Shape.multiLineString <$> [listedRidge].mapM (positions 2)) = _
    rw [List.mapM_cons, hpositions.2]
    rfl

end FilterEncoding.Gml
