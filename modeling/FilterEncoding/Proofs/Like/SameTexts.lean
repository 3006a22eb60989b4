import FilterEncoding.Proofs.Like.Cut

/-!
# Patterns that fit the same texts

How far the texts that fit a pattern determine its items, where letter case counts and a line feed
is a character as any other.  The shortest texts leave out all runs, so that they show the other
items one by one; a longer text shows that there is a run.

* `Like.fixed_eq_of_fits_iff` — such patterns have the same items apart from runs.
* `Like.run_mem_of_fits_iff` — if one of them has a run, the other has one too.
* `Like.eq_of_loosens_of_fixed_eq` — a pattern that is looser somewhere fits other texts.
-/

namespace FilterEncoding.Like

/-- A text that can be cut along a pattern, where one and a run stand for any characters. -/
def Fits (items : List Item) (text : List Char) : Prop :=
  IsCut (· = ·) (fun _ => True) items text

/-- Whether an item that is no run stands for a character. -/
def Item.Admits : Item → Char → Prop
  | .char c, d => c = d
  | _, _ => True

/-- The items that stand for exactly one character. -/
def fixed (items : List Item) : List Item :=
  items.filter (· ≠ .run)

variable {items xs ys : List Item} {text : List Char}

theorem fits_nil : Fits [] text ↔ text = [] :=
  isCut_nil

theorem fits_run_cons :
    Fits (.run :: items) text ↔ ∃ piece rest, text = piece ++ rest ∧ Fits items rest := by
  unfold Fits
  rw [isCut_cons]
  simp only [Item.Covers, implies_true, true_and]

theorem fits_cons_of_ne {item : Item} (h : item ≠ .run) :
    Fits (item :: items) text ↔ ∃ d rest, text = d :: rest ∧ item.Admits d ∧ Fits items rest := by
  unfold Fits
  rw [isCut_cons]
  cases item with
  | char c => exact exists_piece_cons
  | one => exact exists_piece_cons
  | run => exact absurd rfl h

theorem cons_fits_cons_iff {item : Item} (h : item ≠ .run) {d : Char} :
    Fits (item :: items) (d :: text) ↔ item.Admits d ∧ Fits items text := by
  rw [fits_cons_of_ne h]
  constructor
  · rintro ⟨_, _, ⟨⟩, hd, hrest⟩
    exact ⟨hd, hrest⟩
  · rintro ⟨hd, hrest⟩
    exact ⟨d, text, rfl, hd, hrest⟩

/-! ## The shortest texts -/

theorem fixed_run_cons (items : List Item) : fixed (.run :: items) = fixed items :=
  List.filter_cons_of_neg (by decide)

theorem fixed_cons_of_ne {item : Item} (h : item ≠ .run) (items : List Item) :
    fixed (item :: items) = item :: fixed items :=
  List.filter_cons_of_pos (decide_eq_true h)

theorem run_notMem_fixed (items : List Item) : .run ∉ fixed items := fun h =>
  absurd (List.of_mem_filter h) (by decide)

theorem fixed_eq_self (h : .run ∉ items) : fixed items = items :=
  List.filter_eq_self.2 fun _ hitem => decide_eq_true fun heq => h (heq ▸ hitem)

/-- No text that can be cut is shorter than the items need. -/
theorem length_fixed_le_of_isCut {same : Char → Char → Prop} {free : Char → Prop}
    (h : IsCut same free items text) : (fixed items).length ≤ text.length := by
  induction items generalizing text with
  | nil => exact Nat.zero_le _
  | cons item items ih =>
      obtain ⟨piece, rest, rfl, hpiece, hrest⟩ := isCut_cons.1 h
      have hle := ih hrest
      rw [List.length_append]
      cases item with
      | char c =>
          obtain ⟨d, rfl, -⟩ := hpiece
          rw [fixed_cons_of_ne (by simp), List.length_cons, List.length_singleton]
          omega
      | one =>
          obtain ⟨d, rfl, -⟩ := hpiece
          rw [fixed_cons_of_ne (by simp), List.length_cons, List.length_singleton]
          omega
      | run =>
          rw [fixed_run_cons]
          omega

theorem length_fixed_le (h : Fits items text) : (fixed items).length ≤ text.length :=
  length_fixed_le_of_isCut h

/-- In a shortest text a run stands for nothing. -/
theorem fits_fixed_iff :
    Fits (fixed items) text ↔ Fits items text ∧ text.length = (fixed items).length := by
  induction items generalizing text with
  | nil =>
      rw [show fixed [] = [] from rfl, fits_nil]
      exact ⟨fun h => ⟨h, h ▸ rfl⟩, And.left⟩
  | cons item items ih =>
      by_cases hitem : item = .run
      · subst hitem
        rw [fixed_run_cons, fits_run_cons, ih]
        constructor
        · rintro ⟨h, hlength⟩
          exact ⟨⟨[], text, rfl, h⟩, hlength⟩
        · rintro ⟨⟨piece, rest, rfl, hrest⟩, hlength⟩
          have hle := length_fixed_le hrest
          have hpiece : piece = [] := by
            rw [List.length_append] at hlength
            exact List.length_eq_zero_iff.1 (by omega)
          subst hpiece
          exact ⟨hrest, hlength⟩
      · rw [fixed_cons_of_ne hitem, fits_cons_of_ne hitem, fits_cons_of_ne hitem]
        constructor
        · rintro ⟨d, rest, rfl, hd, hrest⟩
          obtain ⟨hrest, hlength⟩ := ih.1 hrest
          exact ⟨⟨d, rest, rfl, hd, hrest⟩, congrArg Nat.succ hlength⟩
        · rintro ⟨⟨d, rest, rfl, hd, hrest⟩, hlength⟩
          exact ⟨d, rest, rfl, hd, ih.2 ⟨hrest, Nat.succ.inj hlength⟩⟩

theorem Item.exists_admits (item : Item) : ∃ d, item.Admits d := by
  cases item with
  | char c => exact ⟨c, rfl⟩
  | one => exact ⟨'a', trivial⟩
  | run => exact ⟨'a', trivial⟩

theorem exists_fits_fixed (items : List Item) : ∃ text, Fits (fixed items) text := by
  induction items with
  | nil => exact ⟨[], fits_nil.2 rfl⟩
  | cons item items ih =>
      obtain ⟨text, htext⟩ := ih
      by_cases hitem : item = .run
      · exact ⟨text, hitem ▸ htext⟩
      · obtain ⟨d, hd⟩ := item.exists_admits
        rw [fixed_cons_of_ne hitem]
        exact ⟨d :: text, (cons_fits_cons_iff hitem).2 ⟨hd, htext⟩⟩

/-! ## What the texts show -/

/-- An item that stands for exactly one character is determined by the characters. -/
theorem Item.eq_of_admits_iff {x y : Item} (hx : x ≠ .run) (hy : y ≠ .run)
    (h : ∀ d, x.Admits d ↔ y.Admits d) : x = y := by
  have hneither (c : Char) : ¬∀ d, c = d := fun hall =>
    absurd ((hall 'a').symm.trans (hall 'b')) (by decide)
  cases x with
  | char c =>
      cases y with
      | char e => exact congrArg Item.char ((h c).1 rfl).symm
      | one => exact absurd (fun d => (h d).2 trivial) (hneither c)
      | run => exact absurd rfl hy
  | one =>
      cases y with
      | char e => exact absurd (fun d => (h d).1 trivial) (hneither e)
      | one => rfl
      | run => exact absurd rfl hy
  | run => exact absurd rfl hx

theorem eq_of_fits_iff (hxs : .run ∉ xs) (hys : .run ∉ ys)
    (h : ∀ text, Fits xs text ↔ Fits ys text) : xs = ys := by
  induction xs generalizing ys with
  | nil =>
      cases ys with
      | nil => rfl
      | cons y ys =>
          obtain ⟨_, _, heq, -⟩ :=
            (fits_cons_of_ne (List.ne_of_not_mem_cons hys).symm).1 ((h []).1 (fits_nil.2 rfl))
          cases heq
  | cons x xs ih =>
      have hx : x ≠ .run := (List.ne_of_not_mem_cons hxs).symm
      have hxs' : .run ∉ xs := List.not_mem_of_not_mem_cons hxs
      cases ys with
      | nil =>
          obtain ⟨text, htext⟩ := exists_fits_fixed (x :: xs)
          rw [fixed_eq_self hxs] at htext
          obtain ⟨d, rest, rfl, -⟩ := (fits_cons_of_ne hx).1 htext
          cases fits_nil.1 ((h _).1 htext)
      | cons y ys =>
          have hy : y ≠ .run := (List.ne_of_not_mem_cons hys).symm
          have hys' : .run ∉ ys := List.not_mem_of_not_mem_cons hys
          -- A text of one pattern is one of the other, so that heads and tails are compared apart.
          have hsplit (d : Char) (text : List Char) :
              x.Admits d ∧ Fits xs text ↔ y.Admits d ∧ Fits ys text := by
            rw [← cons_fits_cons_iff hx, ← cons_fits_cons_iff hy]
            exact h (d :: text)
          obtain ⟨whole, hwhole⟩ := exists_fits_fixed (x :: xs)
          rw [fixed_eq_self hxs] at hwhole
          obtain ⟨first, rest, rfl, hfirst, hrest⟩ := (fits_cons_of_ne hx).1 hwhole
          obtain ⟨hfirst', hrest'⟩ := (hsplit first rest).1 ⟨hfirst, hrest⟩
          have hhead : x = y := Item.eq_of_admits_iff hx hy fun d =>
            ⟨fun hd => ((hsplit d rest).1 ⟨hd, hrest⟩).1,
              fun hd => ((hsplit d rest).2 ⟨hd, hrest'⟩).1⟩
          have htail : xs = ys := ih hxs' hys' fun text =>
            ⟨fun ht => ((hsplit first text).1 ⟨hfirst, ht⟩).2,
              fun ht => ((hsplit first text).2 ⟨hfirst', ht⟩).2⟩
          rw [hhead, htail]

theorem length_fixed_le_of_fits_imp (h : ∀ text, Fits xs text → Fits ys text) :
    (fixed ys).length ≤ (fixed xs).length := by
  obtain ⟨text, htext⟩ := exists_fits_fixed xs
  obtain ⟨hfits, hlength⟩ := fits_fixed_iff.1 htext
  exact hlength ▸ length_fixed_le (h text hfits)

theorem fixed_eq_of_fits_iff (h : ∀ text, Fits xs text ↔ Fits ys text) : fixed xs = fixed ys := by
  have hlength : (fixed xs).length = (fixed ys).length :=
    Nat.le_antisymm (length_fixed_le_of_fits_imp fun text => (h text).2)
      (length_fixed_le_of_fits_imp fun text => (h text).1)
  refine eq_of_fits_iff (run_notMem_fixed xs) (run_notMem_fixed ys) fun text => ?_
  rw [fits_fixed_iff, fits_fixed_iff, h text, hlength]

/-- A run makes room for one character more. -/
theorem exists_fits_of_run_mem (h : .run ∈ items) :
    ∃ text, Fits items text ∧ text.length = (fixed items).length + 1 := by
  induction items with
  | nil => cases h
  | cons item items ih =>
      by_cases hitem : item = .run
      · subst hitem
        obtain ⟨text, htext⟩ := exists_fits_fixed items
        obtain ⟨hfits, hlength⟩ := fits_fixed_iff.1 htext
        refine ⟨'a' :: text, fits_run_cons.2 ⟨['a'], text, rfl, hfits⟩, ?_⟩
        rw [fixed_run_cons, List.length_cons, hlength]
      · obtain ⟨text, htext, hlength⟩ := ih ((List.mem_cons.1 h).resolve_left (Ne.symm hitem))
        obtain ⟨d, hd⟩ := item.exists_admits
        refine ⟨d :: text, (cons_fits_cons_iff hitem).2 ⟨hd, htext⟩, ?_⟩
        rw [fixed_cons_of_ne hitem, List.length_cons, hlength, List.length_cons]

theorem run_mem_of_fits_iff (h : ∀ text, Fits xs text ↔ Fits ys text) (hrun : .run ∈ xs) :
    .run ∈ ys := by
  by_contra hnot
  obtain ⟨text, htext, hlength⟩ := exists_fits_of_run_mem hrun
  -- Without a run, all texts have the length of the fixed items.
  have hfits : Fits (fixed ys) text := (fixed_eq_self hnot).symm ▸ (h text).1 htext
  rw [(fits_fixed_iff.1 hfits).2, fixed_eq_of_fits_iff h] at hlength
  omega

/-! ## Looser patterns -/

/-- An item, or one or a run in the place of a character. -/
inductive Item.Loosens : Item → Item → Prop
  | same (item : Item) : Loosens item item
  | one (c : Char) : Loosens (.char c) .one
  | run (c : Char) : Loosens (.char c) .run

theorem length_fixed_le_of_loosens (h : List.Forall₂ Item.Loosens xs ys) :
    (fixed ys).length ≤ (fixed xs).length := by
  induction h with
  | nil => exact Nat.le_refl _
  | @cons x y xs ys hitem _ ih =>
      cases hitem with
      | same =>
          by_cases hrun : x = .run
          · rw [hrun, fixed_run_cons, fixed_run_cons]
            exact ih
          · rw [fixed_cons_of_ne hrun, fixed_cons_of_ne hrun]
            exact Nat.succ_le_succ ih
      | one c => exact Nat.succ_le_succ ih
      | run c => exact Nat.le_succ_of_le ih

/-- A pattern is loosened nowhere, if its fixed items are kept. -/
theorem eq_of_loosens_of_fixed_eq (h : List.Forall₂ Item.Loosens xs ys)
    (hfixed : fixed xs = fixed ys) : xs = ys := by
  induction h with
  | nil => rfl
  | @cons x y xs ys hitem hrest ih =>
      cases hitem with
      | same =>
          refine congrArg (x :: ·) (ih ?_)
          by_cases hrun : x = .run
          · rwa [hrun, fixed_run_cons, fixed_run_cons] at hfixed
          · rw [fixed_cons_of_ne hrun, fixed_cons_of_ne hrun] at hfixed
            exact (List.cons.inj hfixed).2
      | one c => cases (List.cons.inj hfixed).1
      | run c =>
          -- The run leaves a fixed item less.
          have hlength : (fixed xs).length + 1 = (fixed ys).length := congrArg List.length hfixed
          have hle := length_fixed_le_of_loosens hrest
          omega

end FilterEncoding.Like
