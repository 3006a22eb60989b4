import FilterEncoding.Proofs.Crs
import FilterEncoding.Proofs.Geometry.Exchange
import FilterEncoding.Proofs.Gml.Oriented
import FilterEncoding.Proofs.Readers

/-!
# The order of the axes

An element that gives the latitude first has the positions that the same element has when it gives
the longitude first, with the axes exchanged.  A `Box` does not: its corners are taken as they are
written, whatever its reference system.

* `withReference` — the same element with another reference system.
* `shape_withReference` — the positions of an element whose reference system gives the latitude
  first.
-/

namespace FilterEncoding.Gml

open FilterEncoding.Geometry (Position Rectangle Shape)
open FilterEncoding.Xml (Attribute Node)

/-- An attribute with another value, if it is the one that names the reference system. -/
def replaced (value : String) (a : Attribute) : Attribute :=
  if a.name = "srsName" then { a with value := value } else a

/-- The same element with another reference system. -/
def withReference (value : String) (n : Node) : Node :=
  withAttributes (List.map (replaced value)) n

theorem find?_replaced (key value : String) (attributes : List Attribute) :
    (attributes.map (replaced value)).find? (·.name == key) =
      (attributes.find? (·.name == key)).map (replaced value) := by
  have hname : (fun a : Attribute => a.name == key) ∘ replaced value = (·.name == key) := by
    funext a
    rw [Function.comp_apply, replaced]
    split <;> rfl
  rw [List.find?_map, hname]

section WithReference

variable (value : String) (n : Node)

/-- The other attributes stay as they are. -/
theorem attribute?_withReference {key : String} (hkey : key ≠ "srsName") :
    (withReference value n).attribute? key = n.attribute? key := by
  cases n with
  | element name attributes content =>
      rw [withReference, withAttributes, Node.attribute?, Node.attribute?, find?_replaced]
      cases hfound : attributes.find? (·.name == key) with
      | none => rfl
      | some a =>
          have hname : a.name = key := by
            simpa using List.find?_some hfound
          rw [Option.map_some, replaced, if_neg (hname ▸ hkey)]
  | _ => rfl

theorem reference?_withReference {n : Node} {reference : String}
    (h : reference? n = some reference) : reference? (withReference value n) = some value := by
  cases n with
  | element name attributes content =>
      obtain ⟨a, hfound, -⟩ := Option.map_eq_some_iff.1 h
      have hname : a.name = "srsName" := by
        simpa using List.find?_some hfound
      rw [reference?, withReference, withAttributes, Node.attribute?, find?_replaced, hfound,
        Option.map_some, replaced, if_pos hname]
      rfl
  | _ => cases h

theorem dimension_withReference (inherited : Nat) :
    dimension inherited (withReference value n) = dimension inherited n := by
  rw [dimension, attribute?_withReference value n (by decide), dimension]

/-! ## What is written -/

/-- The written shape does not depend on the reference system. -/
theorem writtenShape?_withReference : writtenShape? (withReference value n) = writtenShape? n := by
  have hdimension : dimension 2 (withReference value n) = dimension 2 n :=
    dimension_withReference value n 2
  simp only [writtenShape?, hdimension]
  simp only [withReference, name?_withAttributes, firstPosition_withAttributes,
    positions_withAttributes, polygon_withAttributes, members_withAttributes]

theorem boxCorners_withReference : boxCorners (withReference value n) = boxCorners n := by
  simp only [boxCorners, Node.child?, withReference, content_withAttributes]

end WithReference

/-- An envelope has corners that are written, and nothing else depends on the reference system but
whether their axes are exchanged. -/
theorem exists_corners_of_envelope {n : Node} {r : Rectangle} {reference : Option String}
    (h : envelope n = .ok (r, reference)) :
    ∃ corners : Rectangle, ∀ m : Node, m.descendants = n.descendants → envelope m = .ok
      (if Crs.latitudeFirst (reference? m) then corners.swapped else corners, reference? m) := by
  unfold envelope Node.descendant? at h ⊢
  cases hlower : n.descendants.find? (Node.named "lowerCorner") with
  | none =>
      rw [hlower] at h
      cases h
  | some lower =>
      cases hupper : n.descendants.find? (Node.named "upperCorner") with
      | none =>
          rw [hlower, hupper] at h
          cases h
      | some upper =>
          rw [hlower, hupper] at h
          dsimp only at h
          split at h
          · next minx miny _ maxx maxy _ hleast hgreatest =>
            -- the corners are those of the texts, before any exchange
            refine ⟨⟨minx, miny, maxx, maxy⟩, fun m hm => ?_⟩
            rw [hm, hlower, hupper]
            dsimp only
            rw [hleast, hgreatest]
          · cases h

/-- The reference system that an element names is that of its positions. -/
theorem innerReference?_of_reference? {n : Node} {reference : String}
    (h : reference? n = some reference) : innerReference? n = some reference := by
  cases n with
  | element name attributes content => rw [innerReference?, Node.nodes, List.findSome?_cons, h]
  | _ => cases h

/-- An element names a reference system that gives the latitude first. -/
structure NamesLatitudeFirst (n : Node) (reference : String) (crs : Crs) : Prop where
  named : reference? n = some reference
  read : Crs.ofText reference = .ok crs
  first : crs.isLatitudeFirst = true

namespace NamesLatitudeFirst

variable {n : Node} {reference : String} {crs : Crs} (h : NamesLatitudeFirst n reference crs)
include h

theorem latitudeFirst : Crs.latitudeFirst (some reference) = true := by
  rw [Crs.latitudeFirst, h.read]
  exact h.first

theorem latitudeFirst_short : Crs.latitudeFirst (some crs.epsg) = false :=
  Crs.latitudeFirst_epsg (Crs.code_le_of_ofText h.read)

theorem reference?_short : reference? (withReference crs.epsg n) = some crs.epsg :=
  reference?_withReference crs.epsg h.named

/-- Two shapes with exchanged positions, if the written shape is the same. -/
theorem shape_of_written {s : Shape} (hwritten : writtenShape? n = some (.ok s)) :
    shape n = .ok (s.swapped, some reference) ∧
      shape (withReference crs.epsg n) = .ok (s, some crs.epsg) := by
  constructor
  · rw [shape_of_writtenShape? hwritten, innerReference?_of_reference? h.named, oriented,
      if_pos h.latitudeFirst]
  · rw [← writtenShape?_withReference crs.epsg] at hwritten
    rw [shape_of_writtenShape? hwritten, innerReference?_of_reference? h.reference?_short, oriented,
      h.latitudeFirst_short, if_neg Bool.false_ne_true]

theorem shape_of_envelope (hname : n.name? = some "Envelope") {s : Shape} {named : Option String}
    (hshape : shape n = .ok (s, named)) :
    ∃ corners : Rectangle, shape n = .ok (corners.swapped.toShape, some reference) ∧
      shape (withReference crs.epsg n) = .ok (corners.toShape, some crs.epsg) := by
  rw [Gml.shape_of_envelope hname] at hshape ⊢
  obtain ⟨⟨r, named⟩, henvelope, -⟩ := exists_of_map_eq_ok hshape
  obtain ⟨corners, hcorners⟩ := exists_corners_of_envelope henvelope
  refine ⟨corners, ?_, ?_⟩
  · rw [hcorners n rfl, h.named, if_pos h.latitudeFirst]
    rfl
  · have hshort : (withReference crs.epsg n).name? = some "Envelope" :=
      (name?_withAttributes _ n).trans hname
    have hbelow : (withReference crs.epsg n).descendants = n.descendants :=
      descendants_withAttributes _ n
    rw [Gml.shape_of_envelope hshort, hcorners _ hbelow, h.reference?_short,
      h.latitudeFirst_short, if_neg Bool.false_ne_true]
    rfl

theorem shape_of_box (hname : n.name? = some "Box") {s : Shape} {named : Option String}
    (hshape : shape n = .ok (s, named)) :
    named = some reference ∧ shape (withReference crs.epsg n) = .ok (s, some crs.epsg) := by
  rw [Gml.shape_of_box hname] at hshape
  obtain ⟨⟨r, _⟩, hbox, hpair⟩ := exists_of_map_eq_ok hshape
  obtain ⟨⟨p, q⟩, hcorners, hrectangle⟩ := exists_of_bind_eq_ok hbox
  obtain ⟨rfl, rfl⟩ := Prod.mk.inj hpair
  obtain ⟨rfl, rfl⟩ := Prod.mk.inj (Except.ok.inj hrectangle)
  have hshort : (withReference crs.epsg n).name? = some "Box" :=
    (name?_withAttributes _ n).trans hname
  refine ⟨h.named, ?_⟩
  rw [Gml.shape_of_box hshort, box, boxCorners_withReference, hcorners, h.reference?_short]
  rfl

end NamesLatitudeFirst

/-- The positions of an element whose reference system gives the latitude first are those of the
same element with the code in the short notation, with the axes exchanged.  Only a `Box` is the
same in both. -/
theorem shape_withReference {n : Node} {reference : String} {crs : Crs} {s : Shape}
    {named : Option String} (hfirst : NamesLatitudeFirst n reference crs)
    (h : shape n = .ok (s, named)) :
    named = some reference ∧
      ∃ s', shape (withReference crs.epsg n) = .ok (s', some crs.epsg) ∧
        (n.named "Box" = false → ∀ p, p ∈ s.positions ↔ p.swapped ∈ s'.positions) ∧
        (n.named "Box" = true → s' = s) := by
  have hbox (hname : n.named "Box" = true) : n.name? = some "Box" :=
    (Node.named_iff "Box" n).1 hname
  rcases written_or_box_or_envelope h with ⟨s', hwritten⟩ | hname | hname
  · obtain ⟨hlatitude, hshort⟩ := hfirst.shape_of_written hwritten
    obtain ⟨rfl, rfl⟩ := Prod.mk.inj (Except.ok.inj (h.symm.trans hlatitude))
    refine ⟨rfl, s', hshort, fun _ _ => s'.mem_positions_swapped, fun hnamed => ?_⟩
    simp [writtenShape?, hbox hnamed] at hwritten
  · obtain ⟨rfl, hshort⟩ := hfirst.shape_of_box hname h
    refine ⟨rfl, s, hshort, fun hnamed => ?_, fun _ => rfl⟩
    cases ((Node.named_iff "Box" n).2 hname).symm.trans hnamed
  · obtain ⟨corners, hlatitude, hshort⟩ := hfirst.shape_of_envelope hname h
    obtain ⟨rfl, rfl⟩ := Prod.mk.inj (Except.ok.inj (h.symm.trans hlatitude))
    refine ⟨rfl, _, hshort, fun _ _ => Rectangle.mem_positions_swapped, fun hnamed => ?_⟩
    exact absurd (hname.symm.trans (hbox hnamed)) (by decide)

def coastLine : Node :=
  .element "LineString" [⟨"srsName", "urn:ogc:def:crs:EPSG::4326"⟩]
    [.element "pos" [] [.text "40 -10"], .element "pos" [] [.text "50 5"]]

theorem shape_withReference_coastLine :
    ∃ s s', shape coastLine = .ok (s, some "urn:ogc:def:crs:EPSG::4326") ∧
      shape (withReference "EPSG:4326" coastLine) = .ok (s', some "EPSG:4326") ∧
        ∀ p, p ∈ s.positions ↔ p.swapped ∈ s'.positions := by
  have hfirst : NamesLatitudeFirst coastLine "urn:ogc:def:crs:EPSG::4326" ⟨4326, .urn⟩ :=
    ⟨rfl, by decide +kernel, by decide⟩
  have hshape : shape coastLine = .ok (.lineString [⟨-10, 40⟩, ⟨5, 50⟩],
      some "urn:ogc:def:crs:EPSG::4326") := rfl
  obtain ⟨-, s', hshort, hexchanged, -⟩ := shape_withReference hfirst hshape
  exact ⟨_, s', hshape, hshort, hexchanged (by decide)⟩

def coastBox : Node :=
  .element "Box" [⟨"srsName", "urn:ogc:def:crs:EPSG::4326"⟩]
    [.element "coordinates" [] [.text "40,-10 50,5"]]

/-- The corners of a box keep the latitude first. -/
theorem shape_withReference_coastBox :
    ∃ s, shape coastBox = .ok (s, some "urn:ogc:def:crs:EPSG::4326") ∧
      shape (withReference "EPSG:4326" coastBox) = .ok (s, some "EPSG:4326") ∧
        ∃ p ∈ s.positions, p.swapped ∉ s.positions := by
  refine ⟨(⟨40, -10, 50, 5⟩ : Rectangle).toShape, rfl, rfl, ⟨40, -10⟩, ?_, ?_⟩
  · decide +kernel
  · decide +kernel

end FilterEncoding.Gml
