import Mathlib.Data.List.Basic

/-!
# What a literal says

A literal is decoded from its opening character on: some pairs of characters stand for one
character, and the first closing character that is in no such pair ends the literal.

* `literal?` — the inside of a literal and the text behind it.
* `Decodes` — characters that are decoded to others wherever they stand in a literal; they compose.
-/

namespace FilterEncoding.Reading

/-- The inside of a literal and the text behind it, for a text behind the opening character. -/
def literal? (pair : Char → Char → Option Char) (closing : Char) :
    List Char → Option (List Char × List Char)
  | [] => none
  | [c] => if c = closing then some ([], []) else none
  | c :: d :: cs =>
      match pair c d with
      | some x => (literal? pair closing cs).map fun r => (x :: r.1, r.2)
      | none =>
          if c = closing then some ([], d :: cs)
          else (literal? pair closing (d :: cs)).map fun r => (c :: r.1, r.2)

/-- Whether characters are decoded to others wherever they stand in a literal. -/
def Decodes (pair : Char → Char → Option Char) (closing : Char)
    (written inside : List Char) : Prop :=
  ∀ cs, literal? pair closing (written ++ cs) =
    (literal? pair closing cs).map fun r => (inside ++ r.1, r.2)

variable {pair : Char → Char → Option Char} {closing : Char}

theorem literal?_cons_of_ne {c : Char} (hc : c ≠ closing) {cs : List Char}
    (hpair : ∀ d ∈ cs.head?, pair c d = none) :
    literal? pair closing (c :: cs) =
      (literal? pair closing cs).map fun r => (c :: r.1, r.2) := by
  cases cs with
  | nil => exact if_neg hc
  | cons d cs =>
      have hnone : pair c d = none := hpair d rfl
      rw [literal?, hnone]
      exact if_neg hc

theorem literal?_closing {cs : List Char} (hpair : ∀ d ∈ cs.head?, pair closing d = none) :
    literal? pair closing (closing :: cs) = some ([], cs) := by
  cases cs with
  | nil => exact if_pos rfl
  | cons d cs =>
      have hnone : pair closing d = none := hpair d rfl
      rw [literal?, hnone]
      exact if_pos rfl

theorem decodes_nil : Decodes pair closing [] [] := fun cs => by
  cases h : literal? pair closing cs <;> simp [h]

theorem decodes_pair {c d x : Char} (h : pair c d = some x) :
    Decodes pair closing [c, d] [x] := fun cs => by
  rw [List.cons_append, List.singleton_append, literal?, h]
  rfl

theorem decodes_char {c : Char} (hc : c ≠ closing) (h : ∀ d, pair c d = none) :
    Decodes pair closing [c] [c] := fun _ => literal?_cons_of_ne hc fun d _ => h d

theorem Decodes.append {xs ys xs' ys' : List Char} (hxs : Decodes pair closing xs xs')
    (hys : Decodes pair closing ys ys') : Decodes pair closing (xs ++ ys) (xs' ++ ys') :=
  fun cs => by
    rw [List.append_assoc, hxs, hys, Option.map_map]
    exact congrArg (Option.map · _) (funext fun r => by simp)

/-- A character in front of characters that it makes no pair with. -/
theorem Decodes.cons {c d : Char} {ds ds' : List Char} (hc : c ≠ closing) (hpair : pair c d = none)
    (h : Decodes pair closing (d :: ds) ds') :
    Decodes pair closing (c :: d :: ds) (c :: ds') := fun cs => by
  rw [List.cons_append, literal?_cons_of_ne hc (fun e he => by cases he; exact hpair), h,
    Option.map_map]
  rfl

theorem Decodes.flatMap {α : Type} {f g : α → List Char} {xs : List α}
    (h : ∀ x ∈ xs, Decodes pair closing (f x) (g x)) :
    Decodes pair closing (xs.flatMap f) (xs.flatMap g) := by
  induction xs with
  | nil => exact decodes_nil
  | cons x xs ih =>
      rw [List.flatMap_cons, List.flatMap_cons]
      exact (h x List.mem_cons_self).append
        (ih fun y hy => h y (List.mem_cons_of_mem x hy))

/-- A literal that is closed says what its characters are decoded to. -/
theorem Decodes.closed {written inside rest : List Char}
    (h : Decodes pair closing written inside)
    (hrest : ∀ d ∈ rest.head?, pair closing d = none) :
    literal? pair closing (written ++ closing :: rest) = some (inside, rest) := by
  rw [h, literal?_closing hrest, Option.map_some, List.append_nil]

end FilterEncoding.Reading
