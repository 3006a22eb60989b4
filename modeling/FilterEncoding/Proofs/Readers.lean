import Mathlib.Data.List.Forall2

/-!
# Readers and searches

A reader gives a result or fails, and is made of readers that do.  What holds of its result follows
from what holds of theirs: of one step behind another, of the members of a list, and of a search
through one.
-/

namespace FilterEncoding

/-! ## Steps -/

theorem exists_of_map_eq_ok {ε α β : Type} {f : α → β} {x : Except ε α} {b : β}
    (h : f <$> x = .ok b) : ∃ a, x = .ok a ∧ f a = b := by
  cases x with
  | error e => cases h
  | ok a => exact ⟨a, rfl, Except.ok.inj h⟩

theorem map_eq_ok_iff {ε α β : Type} {f : α → β} {x : Except ε α} {b : β} :
    f <$> x = .ok b ↔ ∃ a, x = .ok a ∧ f a = b := by
  refine ⟨exists_of_map_eq_ok, ?_⟩
  rintro ⟨a, rfl, rfl⟩
  rfl

theorem exists_of_bind_eq_ok {ε α β : Type} {x : Except ε α} {f : α → Except ε β} {b : β}
    (h : x >>= f = .ok b) : ∃ a, x = .ok a ∧ f a = .ok b := by
  cases x with
  | error e => cases h
  | ok a => exact ⟨a, rfl, h⟩

theorem eq_ok_of_toOption_eq_some {ε α : Type} {x : Except ε α} {a : α}
    (h : x.toOption = some a) : x = .ok a := by
  cases x with
  | error e => cases h
  | ok b => exact congrArg Except.ok (Option.some.inj h)

theorem eq_error_of_map_eq_error {ε α β : Type} {x : Except ε α} {f : α → β} {e : ε}
    (h : x.map f = .error e) : x = .error e := by
  cases x with
  | error e' => exact congrArg Except.error (Except.error.inj h)
  | ok a => cases h

theorem toOption_eq_none_iff {ε α : Type} {x : Except ε α} :
    x.toOption = none ↔ ∃ e, x = .error e := by
  cases x with
  | error e => exact iff_of_true rfl ⟨e, rfl⟩
  | ok a => simp [Except.toOption]

/-- What an answer that is read is like, and what follows from that it is read. -/
theorem exists_ok_of_toOption_map {ε α β : Type} {x : Except ε α} {f : α → β} {b : β}
    {P : α → Prop} (hread : x.toOption.map f = some b) (h : ∀ a, x = .ok a → P a) :
    ∃ a, x = .ok a ∧ f a = b ∧ P a := by
  cases x with
  | error e => cases hread
  | ok a =>
      cases hread
      exact ⟨a, rfl, rfl, h a rfl⟩

/-! ## Members of a list -/

/-- Images are read one by one as the elements themselves if each is. -/
theorem mapM_map_of_forall {ε α β γ : Type} {f : β → Except ε γ} {g : α → Except ε γ} {h : α → β}
    (xs : List α) (hread : ∀ x ∈ xs, f (h x) = g x) : (xs.map h).mapM f = xs.mapM g := by
  induction xs with
  | nil => rfl
  | cons x xs ih =>
      rw [List.forall_mem_cons] at hread
      rw [List.map_cons, List.mapM_cons, List.mapM_cons, hread.1, ih hread.2]

section Traversal

variable {ε α β : Type} {f : α → Except ε β} {xs : List α}

/-- A traversal that succeeds does so at every member. -/
theorem mapM_eq_ok_iff {ys : List β} :
    xs.mapM f = .ok ys ↔ List.Forall₂ (fun x y => f x = .ok y) xs ys := by
  induction xs generalizing ys with
  | nil => cases ys <;> simp [pure, Except.pure]
  | cons x xs ih =>
      rw [List.mapM_cons]
      rcases hx : f x with e | y
      · cases ys <;> simp [bind, Except.bind, hx]
      · rcases hxs : xs.mapM f with e | rest
        · cases ys <;> simp [bind, Except.bind, hx, ← ih, hxs]
        · cases ys <;> simp [bind, Except.bind, pure, Except.pure, hx, ← ih, hxs]

/-- A traversal of what each member of a list stands for. -/
theorem mapM_eq_ok_map {γ : Type} {g : γ → β} {cs : List γ}
    (h : List.Forall₂ (fun c x => f x = .ok (g c)) cs xs) : xs.mapM f = .ok (cs.map g) := by
  rw [mapM_eq_ok_iff, List.forall₂_map_right_iff]
  exact h.flip

theorem ne_nil_of_mapM_cons {x : α} {ys : List β} (h : (x :: xs).mapM f = .ok ys) : ys ≠ [] := by
  cases mapM_eq_ok_iff.1 h
  exact List.cons_ne_nil _ _

/-- A traversal of lists one behind the other. -/
theorem mapM_flatMap_of_forall₂ {γ : Type} {g : γ → List α} {cs : List γ} {yss : List (List β)}
    (h : List.Forall₂ (fun c ys => (g c).mapM f = .ok ys) cs yss) :
    (cs.flatMap g).mapM f = .ok yss.flatten := by
  induction h with
  | nil => rfl
  | cons hread _ ih =>
      rw [List.flatMap_cons, List.mapM_append, hread, ih]
      rfl

/-- A traversal fails at the first member where it does. -/
theorem mapM_eq_error_iff {e : ε} :
    xs.mapM f = .error e ↔ ∃ before x after, xs = before ++ x :: after ∧
      (∀ y ∈ before, ∃ z, f y = .ok z) ∧ f x = .error e := by
  induction xs with
  | nil => simp [pure, Except.pure]
  | cons x xs ih =>
      rw [List.mapM_cons]
      rcases hx : f x with e' | z
      · have hfails : (do let y ← Except.error e'; let ys ← xs.mapM f; pure (y :: ys)) = .error e ↔
            f x = .error e := by
          simp [bind, Except.bind, hx]
        rw [hfails]
        constructor
        · exact fun h => ⟨[], x, xs, rfl, List.forall_mem_nil _, h⟩
        · rintro ⟨before, y, after, heq, hbefore, hy⟩
          cases before with
          | nil =>
              cases heq
              exact hy
          | cons b before =>
              cases heq
              obtain ⟨z, hz⟩ := hbefore x List.mem_cons_self
              cases hx.symm.trans hz
      · have hrest : (do let y ← Except.ok z; let ys ← xs.mapM f; pure (y :: ys)) = .error e ↔
            xs.mapM f = .error e := by
          rcases xs.mapM f with e' | ys <;> simp [bind, Except.bind, pure, Except.pure]
        rw [hrest, ih]
        constructor
        · rintro ⟨before, y, after, rfl, hbefore, hy⟩
          exact ⟨x :: before, y, after, rfl, List.forall_mem_cons.2 ⟨⟨z, hx⟩, hbefore⟩, hy⟩
        · rintro ⟨before, y, after, heq, hbefore, hy⟩
          cases before with
          | nil =>
              cases heq
              cases hx.symm.trans hy
          | cons b before =>
              cases heq
              exact ⟨before, y, after, rfl, (List.forall_mem_cons.1 hbefore).2, hy⟩

end Traversal

theorem exists_mem_of_forall₂ {α β : Type} {r : α → β → Prop} {xs : List α} {ys : List β}
    (h : List.Forall₂ r xs ys) {y : β} (hy : y ∈ ys) : ∃ x ∈ xs, r x y := by
  induction h with
  | nil => cases hy
  | cons hr _ ih =>
      rcases List.mem_cons.1 hy with rfl | hy
      · exact ⟨_, List.mem_cons_self, hr⟩
      · obtain ⟨x, hx, hr⟩ := ih hy
        exact ⟨x, List.mem_cons_of_mem _ hx, hr⟩

section Pairs

variable {α β γ : Type} {as : List α}

/-- A relation that holds where another one does, at every member of a list. -/
theorem forall₂_imp_of_mem {r s : α → β → Prop} {bs : List β}
    (h : ∀ a ∈ as, ∀ b, r a b → s a b) (hr : List.Forall₂ r as bs) : List.Forall₂ s as bs :=
  ((List.forall₂_and_left as bs).2 ⟨fun _ ha => ha, hr⟩).imp fun a b hab => h a hab.1 b hab.2

theorem forall₂_congr_of_mem {r s : α → β → Prop} {bs : List β}
    (h : ∀ a ∈ as, ∀ b, r a b ↔ s a b) : List.Forall₂ r as bs ↔ List.Forall₂ s as bs :=
  ⟨forall₂_imp_of_mem fun a ha b => (h a ha b).1, forall₂_imp_of_mem fun a ha b => (h a ha b).2⟩

/-- Images of a list whose elements are related to those of another one. -/
theorem forall₂_exists_iff {r : α → β → Prop} {f : β → γ} {cs : List γ} :
    List.Forall₂ (fun a c => ∃ b, r a b ∧ f b = c) as cs ↔
      ∃ bs, List.Forall₂ r as bs ∧ bs.map f = cs := by
  constructor
  · intro h
    induction h with
    | nil => exact ⟨[], .nil, rfl⟩
    | cons hr _ ih =>
        obtain ⟨b, hb, rfl⟩ := hr
        obtain ⟨bs, hbs, rfl⟩ := ih
        exact ⟨b :: bs, .cons hb hbs, rfl⟩
  · rintro ⟨bs, h, rfl⟩
    exact List.forall₂_map_right_iff.2 (h.imp fun a b hr => ⟨b, hr, rfl⟩)

/-- Two functions that have the same images on a list are the same on it. -/
theorem forall₂_eq_iff {f g : α → γ} {h : β → γ} {bs : List β}
    (hf : List.Forall₂ (fun a b => f a = h b) as bs) :
    List.Forall₂ (fun a b => g a = h b) as bs ↔ ∀ a ∈ as, g a = f a := by
  induction hf with
  | nil => simp
  | cons heq _ ih => rw [List.forall₂_cons, List.forall_mem_cons, heq, ih]

end Pairs

/-! ## Searches -/

/-- A search that can find one thing only. -/
theorem findSome?_eq_some_iff_of_forall {α β : Type} {f : α → Option β} {b : β} {xs : List α}
    (hf : ∀ x, f x = none ∨ f x = some b) :
    xs.findSome? f = some b ↔ ∃ x ∈ xs, f x ≠ none := by
  constructor
  · intro h
    obtain ⟨x, hx, hb⟩ := List.exists_of_findSome?_eq_some h
    exact ⟨x, hx, by simp [hb]⟩
  · rintro ⟨x, hx, hne⟩
    cases hfind : xs.findSome? f with
    | none => exact absurd (List.findSome?_eq_none_iff.1 hfind x hx) hne
    | some c =>
        obtain ⟨y, -, hy⟩ := List.exists_of_findSome?_eq_some hfind
        rcases hf y with hnone | hsome
        · rw [hnone] at hy
          cases hy
        · rw [← hy, hsome]

end FilterEncoding
