/-!
# Balanced parentheses

* `Nested` — the parentheses of a text balance and never close more than was opened.
* `Enclosed` — moreover the first opening parenthesis is closed by the last closing one, so that
  what stands beside the text cannot come between its parts.
-/

namespace FilterEncoding.Reading

/-- The number of open parentheses behind a text, if none is closed that was not opened. -/
def depth? : Nat → List Char → Option Nat
  | n, [] => some n
  | n, c :: cs =>
      if c = '(' then depth? (n + 1) cs
      else if c = ')' then
        match n with
        | 0 => none
        | n + 1 => depth? n cs
      else depth? n cs

def Nested (cs : List Char) : Prop :=
  depth? 0 cs = some 0

instance (cs : List Char) : Decidable (Nested cs) :=
  inferInstanceAs (Decidable (depth? 0 cs = some 0))

def Unparenthesized (cs : List Char) : Prop :=
  ∀ c ∈ cs, c ≠ '(' ∧ c ≠ ')'

instance (cs : List Char) : Decidable (Unparenthesized cs) :=
  List.decidableBAll _ cs

def Enclosed (cs : List Char) : Prop :=
  ∃ before inner after, cs = before ++ '(' :: (inner ++ ')' :: after) ∧
    Unparenthesized before ∧ Nested inner ∧ Unparenthesized after

theorem depth?_opening (n : Nat) (cs : List Char) : depth? n ('(' :: cs) = depth? (n + 1) cs := by
  simp [depth?]

theorem depth?_closing (n : Nat) (cs : List Char) : depth? (n + 1) (')' :: cs) = depth? n cs := by
  simp [depth?]

theorem depth?_cons_of_ne {c : Char} (hopen : c ≠ '(') (hclose : c ≠ ')') (n : Nat)
    (cs : List Char) : depth? n (c :: cs) = depth? n cs := by
  unfold depth?
  rw [if_neg hopen, if_neg hclose]
  cases cs <;> rfl

theorem depth?_append {xs : List Char} {n m : Nat} (h : depth? n xs = some m) (ys : List Char) :
    depth? n (xs ++ ys) = depth? m ys := by
  fun_induction depth? n xs with
  | case1 n =>
      cases h
      rfl
  | case2 n cs ih => rw [List.cons_append, depth?_opening, ih h]
  | case3 cs _ => cases h
  | case4 cs n _ ih => rw [List.cons_append, depth?_closing, ih h]
  | case5 n c cs hopen hclose ih => rw [List.cons_append, depth?_cons_of_ne hopen hclose, ih h]

/-- More open parentheses in front do not matter. -/
theorem depth?_add {xs : List Char} {n m : Nat} (h : depth? n xs = some m) (k : Nat) :
    depth? (n + k) xs = some (m + k) := by
  fun_induction depth? n xs with
  | case1 n =>
      cases h
      rfl
  | case2 n cs ih =>
      rw [depth?_opening, Nat.add_right_comm]
      exact ih h
  | case3 cs _ => cases h
  | case4 cs n _ ih =>
      rw [Nat.succ_add, depth?_closing]
      exact ih h
  | case5 n c cs hopen hclose ih =>
      rw [depth?_cons_of_ne hopen hclose]
      exact ih h

namespace Nested

variable {xs ys : List Char}

theorem nil : Nested [] := rfl

theorem append (hx : Nested xs) (hy : Nested ys) : Nested (xs ++ ys) := by
  unfold Nested at hx hy ⊢
  rw [depth?_append hx, hy]

theorem group (h : Nested xs) : Nested ('(' :: (xs ++ [')'])) := by
  have hone : depth? 1 xs = some 1 := depth?_add h 1
  show depth? 1 (xs ++ [')']) = some 0
  rw [depth?_append hone]
  rfl

end Nested

theorem Unparenthesized.append {xs ys : List Char} (hx : Unparenthesized xs)
    (hy : Unparenthesized ys) : Unparenthesized (xs ++ ys) :=
  List.forall_mem_append.2 ⟨hx, hy⟩

theorem Unparenthesized.nested {cs : List Char} (h : Unparenthesized cs) : Nested cs := by
  induction cs with
  | nil => rfl
  | cons c cs ih =>
      have hc := h c List.mem_cons_self
      unfold Nested
      rw [depth?_cons_of_ne hc.1 hc.2]
      exact ih fun d hd => h d (List.mem_cons_of_mem c hd)

theorem Enclosed.nested {cs : List Char} (h : Enclosed cs) : Nested cs := by
  obtain ⟨before, inner, after, rfl, hbefore, hinner, hafter⟩ := h
  have hgroup : Nested ('(' :: (inner ++ [')']) ++ after) := hinner.group.append hafter.nested
  rw [List.cons_append, List.append_assoc] at hgroup
  exact hbefore.nested.append hgroup

end FilterEncoding.Reading
