import FilterEncoding.Gml.Positions
import FilterEncoding.Proofs.Readers
import FilterEncoding.Proofs.Xml.Nesting

/-!
# Reading positions

The positions below an element are read in the first of the four encodings that occurs there.  Of
several lists the first one is read, but every position that has an element of its own.  What is
read has a position (`positions_ne_nil`).
-/

namespace FilterEncoding.Gml

open FilterEncoding.Geometry (Position)
open FilterEncoding.Xml (Node)

section Encodings

variable {inherited : Nat} {n : Node}

theorem positions_of_posList {l : Node} {more : List Node}
    (h : n.descendantsNamed ["posList"] = l :: more) :
    positions inherited n = posListPositions inherited l := by
  rw [positions, Node.descendant?_eq_head?, h]
  rfl

theorem positions_of_pos (hother : n.descendantsNamed ["posList"] = [])
    (hpos : n.descendantsNamed ["pos"] ≠ []) :
    positions inherited n = (n.descendantsNamed ["pos"]).mapM posPosition := by
  rw [positions, Node.descendant?_eq_head?, hother]
  cases hnodes : n.descendantsNamed ["pos"] with
  | nil => exact absurd hnodes hpos
  | cons m more => rfl

theorem positions_of_coordinates {m : Node} {more : List Node}
    (hother : n.descendantsNamed ["posList", "pos"] = [])
    (hcoordinates : n.descendantsNamed ["coordinates"] = m :: more) :
    positions inherited n = coordinatesPositions m := by
  rw [Node.descendantsNamed_eq_nil_iff] at hother
  rw [positions, Node.descendant?_eq_head?, Node.descendant?_eq_head?,
    hother "posList" (by decide), hother "pos" (by decide), hcoordinates]
  rfl

theorem positions_of_coord (hother : n.descendantsNamed ["posList", "pos", "coordinates"] = [])
    (hcoord : n.descendantsNamed ["coord"] ≠ []) :
    positions inherited n = (n.descendantsNamed ["coord"]).mapM coordPosition := by
  rw [Node.descendantsNamed_eq_nil_iff] at hother
  rw [positions, Node.descendant?_eq_head?, Node.descendant?_eq_head?,
    hother "posList" (by decide), hother "pos" (by decide), hother "coordinates" (by decide)]
  cases hnodes : n.descendantsNamed ["coord"] with
  | nil => exact absurd hnodes hcoord
  | cons m more => rfl

end Encodings

/-! ## Empty lists -/

theorem everyPosition_ne_nil {d : Nat} {values : List Float} (h : 2 ≤ values.length) :
    everyPosition d values ≠ [] := by
  match values with
  | [] | [_] => simp at h
  | x :: y :: rest =>
      rw [everyPosition]
      exact List.cons_ne_nil _ _

theorem posListPositions_ne_nil {inherited : Nat} {l : Node} {ps : List Position}
    (h : posListPositions inherited l = .ok ps) : ps ≠ [] := by
  unfold posListPositions at h
  dsimp only at h
  split at h
  · cases h
  · next hlength =>
    cases h
    rw [Bool.or_eq_true, not_or, List.isEmpty_iff, bne_iff_ne, not_not] at hlength
    have hpos : 0 < (numbers (trimmedText l)).length := List.length_pos_of_ne_nil hlength.1
    have hdimension : dimension inherited l ≤ (numbers (trimmedText l)).length :=
      Nat.le_of_dvd hpos (Nat.dvd_of_mod_eq_zero hlength.2)
    exact everyPosition_ne_nil (Nat.le_trans (Nat.le_max_left 2 _) hdimension)

/-- An element whose positions are read has one. -/
theorem positions_ne_nil {inherited : Nat} {n : Node} {ps : List Position}
    (h : positions inherited n = .ok ps) : ps ≠ [] := by
  unfold positions at h
  split at h
  · exact posListPositions_ne_nil h
  · split at h
    · exact ne_nil_of_mapM_cons h
    · split at h
      · obtain ⟨qs, -, hqs⟩ := exists_of_bind_eq_ok h
        split at hqs
        · cases hqs
        · next hne =>
          cases hqs
          rintro rfl
          exact hne rfl
      · split at h
        · exact ne_nil_of_mapM_cons h
        · cases h

end FilterEncoding.Gml
