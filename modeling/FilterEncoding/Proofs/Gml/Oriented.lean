import FilterEncoding.Gml.Shape
import FilterEncoding.Proofs.Readers

/-!
# Oriented shapes

The shape of an element that is no box and no envelope is the one that is written, with the axes
exchanged if its reference system gives the latitude first.  What is written depends on what is
below the element and on the dimension that it declares.
-/

namespace FilterEncoding.Gml

open FilterEncoding.Geometry (Shape)
open FilterEncoding.Xml (Attribute Node)

/-- The same element with other attributes. -/
def withAttributes (f : List Attribute → List Attribute) : Node → Node
  | .element name attributes content => .element name (f attributes) content
  | n => n

section WithAttributes

variable (f : List Attribute → List Attribute) (n : Node)

@[simp]
theorem name?_withAttributes : (withAttributes f n).name? = n.name? := by
  cases n <;> rfl

@[simp]
theorem content_withAttributes : (withAttributes f n).content = n.content := by
  cases n <;> rfl

@[simp]
theorem descendants_withAttributes : (withAttributes f n).descendants = n.descendants := by
  rw [Node.descendants, content_withAttributes, Node.descendants]

@[simp]
theorem positions_withAttributes (inherited : Nat) :
    positions inherited (withAttributes f n) = positions inherited n := by
  simp only [positions, Node.descendant?, Node.descendantsNamed, name?_withAttributes,
    descendants_withAttributes]

@[simp]
theorem firstPosition_withAttributes (inherited : Nat) :
    firstPosition inherited (withAttributes f n) = firstPosition inherited n := by
  simp only [firstPosition, positions_withAttributes, name?_withAttributes]

@[simp]
theorem polygon_withAttributes (inherited : Nat) :
    polygon inherited (withAttributes f n) = polygon inherited n := by
  simp only [polygon, Node.descendantsNamed, name?_withAttributes, descendants_withAttributes]

@[simp]
theorem members_withAttributes {α : Type} (names : List String) (read : Node → Except Fault α) :
    members names read (withAttributes f n) = members names read n := by
  simp only [members, Node.descendantsNamed, name?_withAttributes, descendants_withAttributes]

end WithAttributes

/-- There has to be a member. -/
theorem members_eq_mapM {α : Type} {names : List String} {n : Node}
    (h : n.descendantsNamed names ≠ []) (read : Node → Except Fault α) :
    members names read n = (n.descendantsNamed names).mapM read := by
  rw [members]
  cases hmembers : n.descendantsNamed names with
  | nil => exact absurd hmembers h
  | cons member more => rfl

/-- A shape with the longitude or easting first. -/
def oriented (reference : Option String) (s : Shape) : Shape :=
  if Crs.latitudeFirst reference then s.swapped else s

theorem shape_eq_map {n : Node} {written : Except Fault Shape}
    (h : writtenShape? n = some written) :
    shape n = (fun s => (oriented (innerReference? n) s, innerReference? n)) <$> written := by
  rw [shape, h]
  cases written <;> rfl

theorem shape_of_writtenShape? {n : Node} {s : Shape} (h : writtenShape? n = some (.ok s)) :
    shape n = .ok (oriented (innerReference? n) s, innerReference? n) :=
  shape_eq_map h

theorem shape_of_box {n : Node} (h : n.name? = some "Box") :
    shape n = (fun (r, reference) => (r.toShape, reference)) <$> box n := by
  simp [shape, writtenShape?, h]

theorem shape_of_envelope {n : Node} (h : n.name? = some "Envelope") :
    shape n = (fun (r, reference) => (r.toShape, reference)) <$> envelope n := by
  simp [shape, writtenShape?, h]

/-- Every element that has a shape is written as one, or it is a box or an envelope. -/
theorem written_or_box_or_envelope {n : Node} {s : Shape} {reference : Option String}
    (h : shape n = .ok (s, reference)) :
    (∃ written, writtenShape? n = some (.ok written)) ∨
      n.name? = some "Box" ∨ n.name? = some "Envelope" := by
  have hname {name : String} (hname : name ≠ "") (h : n.name?.getD "" = name) :
      n.name? = some name := by
    cases hn : n.name? with
    | none => exact absurd (by rw [← h, hn]; rfl) hname
    | some other => rw [← h, hn, Option.getD_some]
  unfold shape at h
  split at h
  · next written hwritten =>
    obtain ⟨written, rfl, -⟩ := exists_of_bind_eq_ok h
    exact .inl ⟨written, hwritten⟩
  · split at h
    · next hbox => exact .inr (.inl (hname (by decide) hbox))
    · next henvelope => exact .inr (.inr (hname (by decide) henvelope))
    · cases h

end FilterEncoding.Gml
