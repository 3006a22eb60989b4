import FilterEncoding.Expression.Language
import FilterEncoding.Proofs.Plan.TopBox

/-!
# Leaving out a bounding box without its position

A language leaves a bounding box out by its position.  Since the box is the only one that is
reached through conjunctions, it can as well be recognised by what it is: on the way from the root
through conjunctions, leave out every box.

* `Language.express` — expressing a predicate in that way, which inductions can follow without
  carrying a position.
* `Language.compile_eq_express` — it writes what the language writes.
-/

namespace FilterEncoding.Language

open Predicate (Position Side)

variable {τ : Type}

/-- The expression of a tree.  While `lifting`, which holds from the root through conjunctions,
every bounding box is left out of its conjunction. -/
def express (language : Language τ) (lifting : Bool) : Predicate → Except Obstacle τ
  | .unary .not operand => language.negate <$> language.express false operand
  | .unary _ operand => do
      let _ ← language.express false operand
      throw .inexpressible
  | .binary .not left _ => language.negate <$> language.express false left
  | .binary .and left right =>
      if lifting && left.isBox then language.besideBox <$> language.express false right
      else if lifting && right.isBox then language.besideBox <$> language.express false left
      else do
        let l ← language.express lifting left
        let r ← language.express lifting right
        pure (language.join .and l r)
  | .binary .or left right => do
      let l ← language.express false left
      let r ← language.express false right
      pure (language.join .or l r)
  | leaf =>
      match leaf.test? with
      | some test => language.test test
      | none => throw .inexpressible

/-! ## A conjunction -/

theorem express_and_of_isBox_left (language : Language τ) {left : Predicate}
    (hleft : left.isBox = true) (right : Predicate) :
    language.express true (.binary .and left right) =
      language.besideBox <$> language.express false right := by
  rw [express, hleft, Bool.and_self, if_pos rfl]

theorem express_and_of_isBox_right (language : Language τ) {left right : Predicate}
    (hleft : ¬left.isBox = true) (hright : right.isBox = true) :
    language.express true (.binary .and left right) =
      language.besideBox <$> language.express false left := by
  rw [express, Bool.true_and, if_neg hleft, hright, Bool.and_self, if_pos rfl]

/-- A conjunction in which neither operand is a box. -/
theorem express_and_of_not_isBox (language : Language τ) (lifting : Bool) {left right : Predicate}
    (hleft : ¬left.isBox = true) (hright : ¬right.isBox = true) :
    language.express lifting (.binary .and left right) = (do
      let l ← language.express lifting left
      let r ← language.express lifting right
      pure (language.join .and l r)) := by
  rw [express, if_neg fun h => hleft (Bool.and_eq_true_iff.1 h).2,
    if_neg fun h => hright (Bool.and_eq_true_iff.1 h).2]

theorem express_false_and (language : Language τ) (left right : Predicate) :
    language.express false (.binary .and left right) = (do
      let l ← language.express false left
      let r ← language.express false right
      pure (language.join .and l r)) := by
  rw [express]
  rfl

theorem express_false_and_of_eq_ok {language : Language τ} {left right : Predicate} {l r : τ}
    (hl : language.express false left = .ok l) (hr : language.express false right = .ok r) :
    language.express false (.binary .and left right) = .ok (language.join .and l r) := by
  rw [express_false_and, hl, hr]
  rfl

/-- Without a box among the conjuncts it makes no difference whether boxes are left out. -/
theorem express_of_conjunctBoxes_eq_nil (language : Language τ) {p : Predicate}
    (h : p.conjunctBoxes = []) (lifting : Bool) :
    language.express lifting p = language.express false p := by
  fun_induction Language.express language lifting p with
  | case1 lifting operand ih => rw [Language.express]
  | case2 lifting op operand hop ih => rw [Language.express.eq_2 _ _ _ _ hop]
  | case3 lifting left right ih => rw [Language.express]
  | case4 lifting box partner hbox ih =>
      rw [Predicate.conjunctBoxes, List.append_eq_nil_iff] at h
      exact absurd (Bool.and_eq_true_iff.1 hbox).2
        (Predicate.not_isBox_of_conjunctBoxes_eq_nil h.1)
  | case5 lifting partner box _ hbox ih =>
      rw [Predicate.conjunctBoxes, List.append_eq_nil_iff] at h
      exact absurd (Bool.and_eq_true_iff.1 hbox).2
        (Predicate.not_isBox_of_conjunctBoxes_eq_nil h.2)
  | case6 lifting left right _ _ ihLeft ihRight =>
      rw [Predicate.conjunctBoxes, List.append_eq_nil_iff] at h
      rw [ihLeft h.1, ihRight h.2, Language.express]
      rfl
  | case7 lifting left right ihLeft ihRight => rw [Language.express]
  | case8 lifting leaf h₁ h₂ h₃ h₄ h₅ test htest =>
      rw [Language.express.eq_6 _ _ _ h₁ h₂ h₃ h₄ h₅, htest]
  | case9 lifting leaf h₁ h₂ h₃ h₄ h₅ htest =>
      rw [Language.express.eq_6 _ _ _ h₁ h₂ h₃ h₄ h₅, htest]

/-! ## Positions -/

@[simp] theorem below_none (side : Side) : below side none = none := rfl

@[simp] theorem below_cons_self (side : Side) (rest : Position) :
    below side (some (side :: rest)) = some rest :=
  if_pos rfl

theorem below_cons_of_ne {side first : Side} (h : first ≠ side) (rest : Position) :
    below side (some (first :: rest)) = none :=
  if_neg h

/-- Where nothing is left out, both ways say the same. -/
theorem expressWithout_none (language : Language τ) (p : Predicate) :
    language.expressWithout none p = language.express false p := by
  induction p with
  | unary op operand ih => cases op <;> simp only [expressWithout, express, below_none, ih]
  | binary op left right ihLeft ihRight =>
      cases op with
      | not => rw [expressWithout, express, below_none, ihLeft]
      | and =>
          rw [express_false_and, expressWithout, below_none, below_none, ihLeft, ihRight]
          rfl
      | or => rw [expressWithout, express, below_none, below_none, ihLeft, ihRight]
  | _ => rfl

/-- The only box among the conjuncts is left out by its position or by what it is. -/
theorem expressWithout_eq_express (language : Language τ) {p : Predicate} {position : Position}
    (h : p.conjunctBoxPositions = [position]) :
    language.expressWithout (some position) p = language.express true p := by
  induction p generalizing position with
  | binary op left right ihLeft ihRight =>
      cases op with
      | and =>
          -- The box is on one side.  The other side has none, so that it is expressed as it is.
          rw [Predicate.conjunctBoxPositions, List.append_eq_singleton_iff] at h
          rcases h with ⟨hnone, hone⟩ | ⟨hone, hnone⟩
          · have hleft := Predicate.conjunctBoxes_eq_nil_of_positions (List.map_eq_nil_iff.1 hnone)
            have hleftBox := Predicate.not_isBox_of_conjunctBoxes_eq_nil hleft
            obtain ⟨rest, hrest, rfl⟩ := List.map_eq_singleton_iff.1 hone
            rw [expressWithout, below_cons_self, below_cons_of_ne (by decide),
              expressWithout_none, if_neg (by simp)]
            by_cases hright : right.isBox = true
            · cases (Predicate.isBox_iff_of_position hrest).1 hright
              rw [if_pos rfl, language.express_and_of_isBox_right hleftBox hright]
            · have hpath : rest ≠ [] := fun hnil =>
                hright ((Predicate.isBox_iff_of_position hrest).2 hnil)
              rw [if_neg (by simpa using hpath), ihRight hrest,
                language.express_and_of_not_isBox true hleftBox hright,
                language.express_of_conjunctBoxes_eq_nil hleft true]
          · have hright := Predicate.conjunctBoxes_eq_nil_of_positions (List.map_eq_nil_iff.1 hnone)
            have hrightBox := Predicate.not_isBox_of_conjunctBoxes_eq_nil hright
            obtain ⟨rest, hrest, rfl⟩ := List.map_eq_singleton_iff.1 hone
            rw [expressWithout, below_cons_self, below_cons_of_ne (by decide),
              expressWithout_none]
            by_cases hleft : left.isBox = true
            · cases (Predicate.isBox_iff_of_position hrest).1 hleft
              rw [if_pos rfl, language.express_and_of_isBox_left hleft]
            · have hpath : rest ≠ [] := fun hnil =>
                hleft ((Predicate.isBox_iff_of_position hrest).2 hnil)
              rw [if_neg (by simpa using hpath), if_neg (by simp), ihLeft hrest,
                language.express_and_of_not_isBox true hleft hrightBox,
                language.express_of_conjunctBoxes_eq_nil hright true]
      | _ => cases h
  | spatial op left right _ _ => rfl
  | _ => cases h

/-- The expression of a filter, without the position of its top bounding box. -/
theorem compile_eq_express (language : Language τ) (p : Predicate) :
    language.compile p = language.express p.topBoxNode?.isSome p := by
  unfold compile Predicate.topBoxPosition?
  cases hnode : p.topBoxNode? with
  | none => exact language.expressWithout_none p
  | some box =>
      obtain ⟨position, hposition, -⟩ := Predicate.exists_position_of_conjunctBoxes
        (Predicate.topBoxNode?_eq_some_iff.1 hnode).1
      rw [Option.bind_some, hposition]
      exact language.expressWithout_eq_express hposition

theorem compile_of_conjunctBoxes_eq_nil (language : Language τ) {p : Predicate}
    (h : p.conjunctBoxes = []) : language.compile p = language.express false p := by
  rw [compile_eq_express]
  exact language.express_of_conjunctBoxes_eq_nil h _

theorem compile_of_topBoxNode? (language : Language τ) {p box : Predicate}
    (h : p.topBoxNode? = some box) : language.compile p = language.express true p := by
  rw [compile_eq_express, h, Option.isSome_some]

end FilterEncoding.Language
