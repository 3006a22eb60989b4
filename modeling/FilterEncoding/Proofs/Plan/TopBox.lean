import FilterEncoding.Predicate.Boxes

/-!
# Taking out the top bounding box

A predicate is true or false once the truth of its tests is given.  The top bounding box of a
predicate may be taken out of the conjunction it stands in: its partner takes the place of that
conjunction.

* `bind_at?_topBoxPosition?` — the top bounding box is the node at its position.
* `Removal` — the rule as a relation, one case for each way to the box; `removal_dropBox` says that
  `dropBox` follows it.
* `holds_eq_withoutTopBox` — the predicate is true exactly if what remains and the box are.
* `topBoxNode?_withoutTopBox` — what remains has no top bounding box of its own, so that nothing is
  taken out twice.
-/

namespace FilterEncoding.Predicate

/-- Whether a predicate is true for given truths of its leaves.  A negation reads only its first
operand, and a conjunction or disjunction of one operand counts as a leaf. -/
def holds (truth : Predicate → Bool) : Predicate → Bool
  | unary .not operand => !operand.holds truth
  | binary .not left _ => !left.holds truth
  | binary .and left right => left.holds truth && right.holds truth
  | binary .or left right => left.holds truth || right.holds truth
  | leaf => truth leaf

/-- Put the partner of a bounding box in the place of their conjunction, for the boxes that are
reached through conjunctions. -/
def dropBox : Predicate → Predicate
  | binary .and left right =>
      if left.isBox then right
      else if right.isBox then left
      else binary .and left.dropBox right.dropBox
  | p => p

/-- The predicate without its top bounding box.  It stays as it is when it has none, or is one. -/
def withoutTopBox (p : Predicate) : Predicate :=
  if p.topBoxNode?.isSome then p.dropBox else p

/-- The other operand of the conjunction of a bounding box. -/
def boxPartner? : Predicate → Option Predicate
  | binary .and left right =>
      if left.isBox then some right
      else if right.isBox then some left
      else left.boxPartner?.or right.boxPartner?
  | _ => none

/-- `rest` is `p` with the conjunction of `box` and `partner` replaced by `partner`.  The
conjunction is reached through conjunctions, and there is no other box among the conjuncts. -/
inductive Removal (box partner : Predicate) : Predicate → Predicate → Prop
  | first (hpartner : partner.conjunctBoxes = []) :
      Removal box partner (binary .and box partner) partner
  | second (hpartner : partner.conjunctBoxes = []) :
      Removal box partner (binary .and partner box) partner
  | inLeft (left right rest : Predicate) (hright : right.conjunctBoxes = [])
      (hleft : Removal box partner left rest) :
      Removal box partner (binary .and left right) (binary .and rest right)
  | inRight (left right rest : Predicate) (hleft : left.conjunctBoxes = [])
      (hright : Removal box partner right rest) :
      Removal box partner (binary .and left right) (binary .and left rest)

/-! ## The conjuncts that are boxes -/

theorem conjunctBoxes_of_isBox {p : Predicate} (h : p.isBox = true) : p.conjunctBoxes = [p] := by
  cases p with
  | spatial op left right =>
      cases op with
      | bbox => rfl
      | _ => cases h
  | _ => cases h

theorem not_isBox_of_conjunctBoxes_eq_nil {p : Predicate} (h : p.conjunctBoxes = []) :
    ¬p.isBox = true := by
  intro hbox
  rw [conjunctBoxes_of_isBox hbox] at h
  cases h

theorem isBox_of_mem_conjunctBoxes {p box : Predicate} (h : box ∈ p.conjunctBoxes) :
    box.isBox = true := by
  fun_induction conjunctBoxes p with
  | case1 left right =>
      rw [List.mem_singleton.1 h]
      rfl
  | case2 left right ihLeft ihRight =>
      rcases List.mem_append.1 h with hleft | hright
      · exact ihLeft hleft
      · exact ihRight hright
  | case3 p _ _ => cases h

theorem topBoxNode?_eq_some_iff {p box : Predicate} :
    p.topBoxNode? = some box ↔ p.conjunctBoxes = [box] ∧ box.boxParts?.isSome := by
  unfold topBoxNode?
  constructor
  · intro h
    split at h
    · next only honly =>
      rw [Option.ite_none_right_eq_some] at h
      cases h.2
      exact ⟨honly, h.1⟩
    · cases h
  · rintro ⟨hboxes, hparts⟩
    rw [hboxes]
    exact if_pos hparts

theorem isBox_of_topBoxNode? {p box : Predicate} (h : p.topBoxNode? = some box) :
    box.isBox = true :=
  isBox_of_mem_conjunctBoxes ((topBoxNode?_eq_some_iff.1 h).1 ▸ List.mem_singleton_self box)

theorem topBoxNode?_of_conjunctBoxes_eq_nil {p : Predicate} (h : p.conjunctBoxes = []) :
    p.topBoxNode? = none := by
  unfold topBoxNode?
  rw [h]

/-- A predicate without boxes among its conjuncts stays as it is. -/
theorem dropBox_of_conjunctBoxes_eq_nil {p : Predicate} (h : p.conjunctBoxes = []) :
    p.dropBox = p := by
  fun_induction dropBox p with
  | case1 left right hbox =>
      rw [conjunctBoxes, List.append_eq_nil_iff] at h
      exact absurd hbox (not_isBox_of_conjunctBoxes_eq_nil h.1)
  | case2 left right _ hbox =>
      rw [conjunctBoxes, List.append_eq_nil_iff] at h
      exact absurd hbox (not_isBox_of_conjunctBoxes_eq_nil h.2)
  | case3 left right _ _ ihLeft ihRight =>
      rw [conjunctBoxes, List.append_eq_nil_iff] at h
      rw [ihLeft h.1, ihRight h.2]
  | case4 p _ => rfl

theorem boxPartner?_of_conjunctBoxes_eq_nil {p : Predicate} (h : p.conjunctBoxes = []) :
    p.boxPartner? = none := by
  fun_induction boxPartner? p with
  | case1 left right hbox =>
      rw [conjunctBoxes, List.append_eq_nil_iff] at h
      exact absurd hbox (not_isBox_of_conjunctBoxes_eq_nil h.1)
  | case2 left right _ hbox =>
      rw [conjunctBoxes, List.append_eq_nil_iff] at h
      exact absurd hbox (not_isBox_of_conjunctBoxes_eq_nil h.2)
  | case3 left right _ _ ihLeft ihRight =>
      rw [conjunctBoxes, List.append_eq_nil_iff] at h
      rw [ihLeft h.1, ihRight h.2]
      rfl
  | case4 p _ => rfl

theorem boxPartner?_of_isBox {p : Predicate} (h : p.isBox = true) : p.boxPartner? = none := by
  cases p with
  | spatial op left right => rfl
  | _ => cases h

/-! ## The position of the top bounding box -/

theorem map_at?_conjunctBoxPositions (p : Predicate) :
    p.conjunctBoxPositions.map p.at? = p.conjunctBoxes.map some := by
  fun_induction conjunctBoxPositions p with
  | case1 left right => rfl
  | case2 left right ihLeft ihRight =>
      rw [conjunctBoxes, List.map_append, List.map_append, List.map_map, List.map_map, ← ihLeft,
        ← ihRight]
      rfl
  | case3 p hbox hand => rw [conjunctBoxes.eq_3 p hbox hand, List.map_nil, List.map_nil]

theorem conjunctBoxes_eq_nil_of_positions {p : Predicate} (h : p.conjunctBoxPositions = []) :
    p.conjunctBoxes = [] := by
  have hmap := p.map_at?_conjunctBoxPositions
  rw [h, List.map_nil] at hmap
  exact List.map_eq_nil_iff.1 hmap.symm

theorem exists_position_of_conjunctBoxes {p box : Predicate} (h : p.conjunctBoxes = [box]) :
    ∃ position, p.conjunctBoxPositions = [position] ∧ p.at? position = some box := by
  have hmap := p.map_at?_conjunctBoxPositions
  rw [h] at hmap
  exact List.map_eq_singleton_iff.1 hmap

/-- The only box stands at the root exactly if the predicate is a box. -/
theorem isBox_iff_of_position {p : Predicate} {position : Position}
    (h : p.conjunctBoxPositions = [position]) : p.isBox = true ↔ position = [] := by
  constructor
  · intro hbox
    cases p with
    | spatial op left right =>
        cases op with
        | bbox => exact (List.cons.inj h).1.symm
        | _ => cases hbox
    | _ => cases hbox
  · rintro rfl
    have hmap := p.map_at?_conjunctBoxPositions
    rw [h] at hmap
    obtain ⟨box, hboxes, hself⟩ := List.map_eq_singleton_iff.1 hmap.symm
    have heq : box = p := Option.some.inj hself
    exact isBox_of_mem_conjunctBoxes (heq ▸ hboxes ▸ List.mem_singleton_self box)

/-- The top bounding box stands at its position. -/
theorem bind_at?_topBoxPosition? (p : Predicate) :
    p.topBoxPosition?.bind p.at? = p.topBoxNode? := by
  unfold topBoxPosition?
  cases hnode : p.topBoxNode? with
  | none => rfl
  | some box =>
      obtain ⟨position, hposition, hat⟩ :=
        exists_position_of_conjunctBoxes (topBoxNode?_eq_some_iff.1 hnode).1
      rw [Option.bind_some, hposition]
      exact hat

/-! ## The removal of a box -/

/-- A predicate with one box among its conjuncts is that box, or `dropBox` removes the box from
it. -/
theorem removal_dropBox {p box : Predicate} (h : p.conjunctBoxes = [box]) :
    p = box ∨ ∃ partner, p.boxPartner? = some partner ∧ Removal box partner p p.dropBox := by
  have hbox : box.isBox = true := isBox_of_mem_conjunctBoxes (h ▸ List.mem_singleton_self box)
  induction p with
  | binary op left right ihLeft ihRight =>
      cases op with
      | and =>
          right
          -- The only box is among the conjuncts of one operand, and the other operand has none.
          rw [conjunctBoxes, List.append_eq_singleton_iff] at h
          rcases h with ⟨hnone, hone⟩ | ⟨hone, hnone⟩
          · have hleft := not_isBox_of_conjunctBoxes_eq_nil hnone
            rw [boxPartner?, dropBox, if_neg hleft, if_neg hleft]
            by_cases hright : right.isBox = true
            · rw [conjunctBoxes_of_isBox hright] at hone
              cases hone
              rw [if_pos hright, if_pos hright]
              exact ⟨left, rfl, .second hnone⟩
            · rw [if_neg hright, if_neg hright, boxPartner?_of_conjunctBoxes_eq_nil hnone,
                dropBox_of_conjunctBoxes_eq_nil hnone]
              rcases ihRight hone with heq | ⟨partner, hpartner, hrest⟩
              · exact absurd (heq ▸ hbox) hright
              · exact ⟨partner, hpartner, .inRight left right _ hnone hrest⟩
          · have hright := not_isBox_of_conjunctBoxes_eq_nil hnone
            rw [boxPartner?, dropBox, if_neg hright, if_neg hright]
            by_cases hleft : left.isBox = true
            · rw [conjunctBoxes_of_isBox hleft] at hone
              cases hone
              rw [if_pos hleft, if_pos hleft]
              exact ⟨right, rfl, .first hnone⟩
            · rw [if_neg hleft, if_neg hleft, boxPartner?_of_conjunctBoxes_eq_nil hnone,
                dropBox_of_conjunctBoxes_eq_nil hnone, Option.or_none]
              rcases ihLeft hone with heq | ⟨partner, hpartner, hrest⟩
              · exact absurd (heq ▸ hbox) hleft
              · exact ⟨partner, hpartner, .inLeft left right _ hnone hrest⟩
      | _ => cases h
  | spatial op left right _ _ =>
      cases op with
      | bbox => exact .inl (List.cons.inj h).1
      | _ => cases h
  | _ => cases h

namespace Removal

variable {box partner p rest : Predicate}

theorem conjunctBoxes_partner (h : Removal box partner p rest) : partner.conjunctBoxes = [] := by
  induction h with
  | first hpartner => exact hpartner
  | second hpartner => exact hpartner
  | inLeft _ _ _ _ _ ih => exact ih
  | inRight _ _ _ _ _ ih => exact ih

/-- What remains has no box among its conjuncts. -/
theorem conjunctBoxes_rest (h : Removal box partner p rest) : rest.conjunctBoxes = [] := by
  induction h with
  | first hpartner => exact hpartner
  | second hpartner => exact hpartner
  | inLeft left right rest hright _ ih => rw [conjunctBoxes, ih, hright, List.append_nil]
  | inRight left right rest hleft _ ih => rw [conjunctBoxes, ih, hleft, List.append_nil]

/-- A predicate is the conjunction of the box and what remains. -/
theorem holds_eq (h : Removal box partner p rest) (truth : Predicate → Bool) :
    p.holds truth = (rest.holds truth && box.holds truth) := by
  induction h with
  | first _ => rw [holds, Bool.and_comm]
  | second _ => rw [holds]
  | inLeft left right rest _ _ ih => rw [holds, holds, ih, Bool.and_right_comm]
  | inRight left right rest _ _ ih => rw [holds, holds, ih, Bool.and_assoc]

end Removal

/-! ## Without the top bounding box -/

/-- There is no top bounding box, or the predicate is one, or it is removed. -/
theorem withoutTopBox_cases (p : Predicate) :
    (p.topBoxNode? = none ∧ p.withoutTopBox = p) ∨
      (p.topBoxNode? = some p ∧ p.withoutTopBox = p) ∨
      ∃ box partner, p.topBoxNode? = some box ∧ p.boxPartner? = some partner ∧
        Removal box partner p p.withoutTopBox := by
  unfold withoutTopBox
  cases hnode : p.topBoxNode? with
  | none => exact .inl ⟨rfl, rfl⟩
  | some box =>
      right
      have hboxes := (topBoxNode?_eq_some_iff.1 hnode).1
      rw [Option.isSome_some, if_pos rfl]
      rcases removal_dropBox hboxes with rfl | ⟨partner, hpartner, hrest⟩
      · left
        have hbox : p.isBox = true := isBox_of_topBoxNode? hnode
        refine ⟨rfl, ?_⟩
        cases p with
        | spatial op left right => rfl
        | _ => cases hbox
      · exact .inr ⟨box, partner, rfl, hpartner, hrest⟩

/-- What remains has no top bounding box, unless the predicate is one itself. -/
theorem topBoxNode?_withoutTopBox {p : Predicate} (hp : p.isBox = false) :
    p.withoutTopBox.topBoxNode? = none := by
  rcases withoutTopBox_cases p with ⟨hnone, heq⟩ | ⟨hself, -⟩ | ⟨box, partner, -, -, hrest⟩
  · rw [heq, hnone]
  · rw [isBox_of_topBoxNode? hself] at hp
    cases hp
  · exact topBoxNode?_of_conjunctBoxes_eq_nil hrest.conjunctBoxes_rest

/-- A predicate is true exactly if it is without its top bounding box and the box, if there is one,
is true too. -/
theorem holds_eq_withoutTopBox (p : Predicate) (truth : Predicate → Bool) :
    p.holds truth =
      (p.withoutTopBox.holds truth && p.topBoxNode?.all fun box => box.holds truth) := by
  rcases withoutTopBox_cases p with ⟨hnone, heq⟩ | ⟨hself, heq⟩ | ⟨box, partner, hbox, -, hrest⟩
  · rw [heq, hnone, Option.all_none, Bool.and_true]
  · rw [heq, hself, Option.all_some, Bool.and_self]
  · rw [hbox, Option.all_some, hrest.holds_eq truth]

end FilterEncoding.Predicate
