import FilterEncoding.Proofs.Like.RegularExpression
import FilterEncoding.Proofs.Like.SameTexts

/-!
# Shortest matches

An expression finds a match that is no longer than its parts need: no repetition covers anything in
it.  A pattern accepts no text that is shorter than its items need.  So the two differ where the
expression of a pattern has fewer parts that cover a character than the pattern has items that do.

* `Regex.readWith?` — an expression as an engine reads it that has its own rule for backslashes.
* `Regex.Matches.exists_shortest` — the shortest matches of an expression.
* `Like.eq_of_isCut_sample` — a pattern with a full stop that stands for any character is told from
  one in which it stands for itself.
-/

namespace FilterEncoding

open Like (Item IsCut IsWithinLine SameUpTo fixed)

namespace Regex

/-! ## Backslashes -/

/-- The symbols of an expression for an engine that takes some characters for themselves behind a
backslash. -/
def symbolsWith? (self : Char → Bool) : List Char → Option (List Symbol)
  | [] => some []
  | [c] => if c = '\\' then none else some [.ofChar c]
  | c :: d :: cs =>
      if c = '\\' then
        if self d then (symbolsWith? self cs).map (.literal d :: ·) else none
      else (symbolsWith? self (d :: cs)).map (.ofChar c :: ·)

/-- Read an expression with a rule for backslashes. -/
def readWith? (self : Char → Bool) (expression : String) : Option Regex :=
  match expression.toList with
  | '(' :: '?' :: 'i' :: ')' :: cs => ((symbolsWith? self cs).bind parts?).map (⟨true, ·⟩)
  | cs => ((symbolsWith? self cs).bind parts?).map (⟨false, ·⟩)

theorem symbolsWith?_punctuation (cs : List Char) :
    symbolsWith? (fun c => decide (c ∈ punctuation)) cs = symbols? cs := by
  fun_induction symbols? cs with
  | case1 => rfl
  | case2 => rfl
  | case3 c hc => exact if_neg hc
  | case4 d cs hd ih => rw [symbolsWith?, if_pos rfl, if_pos (decide_eq_true hd), ih]
  | case5 d cs hd => rw [symbolsWith?, if_pos rfl, if_neg (by simpa using hd)]
  | case6 c d cs hc ih => rw [symbolsWith?, if_neg hc, ih]

/-- Expressions are read as by an engine that wants punctuation behind a backslash. -/
theorem readWith?_punctuation (expression : String) :
    readWith? (fun c => decide (c ∈ punctuation)) expression = read? expression := by
  have hsymbols : symbolsWith? (fun c => decide (c ∈ punctuation)) = symbols? :=
    funext symbolsWith?_punctuation
  unfold readWith?
  rw [hsymbols]
  rfl

variable {self : Char → Bool}

theorem symbolsWith?_cons_of_ne {c : Char} (hc : c ≠ '\\') (cs : List Char) :
    symbolsWith? self (c :: cs) = (symbolsWith? self cs).map (.ofChar c :: ·) := by
  cases cs with
  | nil => exact if_neg hc
  | cons d cs => rw [symbolsWith?, if_neg hc]

theorem symbolsWith?_backslash (d : Char) (cs : List Char) :
    symbolsWith? self ('\\' :: d :: cs) =
      if self d then (symbolsWith? self cs).map (.literal d :: ·) else none := by
  rw [symbolsWith?, if_pos rfl]

/-! ## Parts -/

/-- What is put behind the parts in front of a symbol. -/
theorem push_eq_some {parts parts' : List Part} {s : Symbol} (h : push parts s = some parts') :
    (∃ c, s = .literal c ∧ parts' = .once (.char c) :: parts) ∨
    (s = .operator '.' ∧ parts' = .once .any :: parts) ∨
    (s = .operator '^' ∧ parts' = .once .start :: parts) ∨
    (s = .operator '$' ∧ parts' = .once .finish :: parts) ∨
    (s = .operator '*' ∧ ∃ a rest, parts = .once a :: rest ∧ parts' = .many a :: rest) := by
  unfold push at h
  split at h
  · exact .inl ⟨_, rfl, (Option.some.inj h).symm⟩
  · exact .inr (.inr (.inl ⟨rfl, (Option.some.inj h).symm⟩))
  · exact .inr (.inr (.inr (.inl ⟨rfl, (Option.some.inj h).symm⟩)))
  · exact .inr (.inl ⟨rfl, (Option.some.inj h).symm⟩)
  · exact .inr (.inr (.inr (.inr ⟨rfl, _, _, rfl, (Option.some.inj h).symm⟩)))
  · cases h

/-- The number of characters that a part covers at least. -/
def Part.width : Part → Nat
  | .once .any => 1
  | .once (.char _) => 1
  | _ => 0

/-- The number of characters that an expression covers at least. -/
def width : List Part → Nat
  | [] => 0
  | part :: parts => part.width + width parts

theorem width_cons (part : Part) (parts : List Part) :
    width (part :: parts) = part.width + width parts := rfl

theorem width_append (parts parts' : List Part) :
    width (parts ++ parts') = width parts + width parts' := by
  induction parts with
  | nil => exact (Nat.zero_add _).symm
  | cons part parts ih => rw [List.cons_append, width_cons, width_cons, ih, Nat.add_assoc]

theorem width_reverse (parts : List Part) : width parts.reverse = width parts := by
  induction parts with
  | nil => rfl
  | cons part parts ih =>
      rw [List.reverse_cons, width_append, ih, Nat.add_comm]
      rfl

theorem width_itemParts (items : List Item) :
    width (items.map itemPart) = (fixed items).length := by
  induction items with
  | nil => rfl
  | cons item items ih =>
      rw [List.map_cons, width_cons, ih]
      cases item with
      | char c => rw [Like.fixed_cons_of_ne (by simp)]; exact Nat.add_comm _ _
      | one => rw [Like.fixed_cons_of_ne (by simp)]; exact Nat.add_comm _ _
      | run => rw [Like.fixed_run_cons]; exact Nat.zero_add _

theorem length_of_covers_once {ignoreCase : Bool} {a : Atom} {before piece after : List Char}
    (h : a.Covers ignoreCase before piece after) : piece.length = (Part.once a).width := by
  cases a with
  | start => rw [h.2]; rfl
  | finish => rw [h.1]; rfl
  | any => obtain ⟨d, rfl, -⟩ := h; rfl
  | char c => obtain ⟨d, rfl, -⟩ := h; rfl

/-- An atom covers a piece also where less stands around it. -/
theorem Atom.Covers.shorten {ignoreCase : Bool} {a : Atom}
    {before before' piece after after' : List Char} (h : a.Covers ignoreCase before piece after)
    (hbefore : before = [] → before' = []) (hafter : after = [] → after' = []) :
    a.Covers ignoreCase before' piece after' := by
  cases a with
  | start => exact ⟨hbefore h.1, h.2⟩
  | finish => exact ⟨h.1, hafter h.2⟩
  | any => exact h
  | char c => exact h

/-- Where repetitions are left out, the parts of an expression still cover a piece, also where less
stands around it. -/
theorem Covers.exists_shortest {ignoreCase : Bool} {parts : List Part}
    {before piece after : List Char} (h : Covers ignoreCase parts before piece after)
    {before' after' : List Char} (hbefore : before = [] → before' = [])
    (hafter : after = [] → after' = []) :
    ∃ piece', Covers ignoreCase parts before' piece' after' ∧ piece'.length = width parts ∧
      (piece = [] → piece' = []) := by
  induction h generalizing before' with
  | nil => exact ⟨[], .nil, rfl, id⟩
  | @once a parts before piece rest after hfirst _ ih =>
      have hfront : before ++ piece = [] → before' ++ piece = [] := fun h => by
        obtain ⟨hb, hp⟩ := List.append_eq_nil_iff.1 h
        rw [hbefore hb, hp, List.append_nil]
      obtain ⟨rest', hrest, hlength, hnil⟩ := ih hfront hafter
      refine ⟨piece ++ rest', .once (hfirst.shorten hbefore fun h => ?_) hrest, ?_, fun h => ?_⟩
      · obtain ⟨hr, ha⟩ := List.append_eq_nil_iff.1 h
        rw [hnil hr, hafter ha, List.append_nil]
      · rw [List.length_append, hlength, length_of_covers_once hfirst, width_cons]
      · obtain ⟨hp, hr⟩ := List.append_eq_nil_iff.1 h
        rw [hp, hnil hr, List.append_nil]
  | stop _ ih =>
      obtain ⟨piece', hpiece, hlength, hnil⟩ := ih hbefore hafter
      exact ⟨piece', .stop hpiece, by rw [hlength, width_cons]; exact (Nat.zero_add _).symm, hnil⟩
  | @again a parts before piece rest after _ _ ih =>
      have hfront : before ++ piece = [] → before' = [] := fun h =>
        hbefore (List.append_eq_nil_iff.1 h).1
      obtain ⟨piece', hpiece, hlength, hnil⟩ := ih hfront hafter
      exact ⟨piece', hpiece, hlength, fun h => hnil (List.append_eq_nil_iff.1 h).2⟩

/-- An expression that finds a match finds one that is the whole text and covers no more than its
parts need. -/
theorem Matches.exists_shortest {r : Regex} {text : List Char} (h : Matches r text) :
    ∃ text', Matches r text' ∧ text'.length = width r.parts := by
  obtain ⟨before, piece, after, -, h⟩ := h
  have hnil (cs : List Char) : cs = [] → ([] : List Char) = [] := fun _ => rfl
  obtain ⟨text', hcovers, hlength, -⟩ := h.exists_shortest (hnil before) (hnil after)
  exact ⟨text', ⟨[], text', [], (List.append_nil _).symm, hcovers⟩, hlength⟩

end Regex

namespace Like

variable {same : Char → Char → Prop} {free : Char → Prop} {items xs ys : List Item}
  {text : List Char}

/-! ## Samples -/

/-- A text for an item, in which a run stands for nothing. -/
def Item.sample : Item → List Char
  | .char c => [c]
  | .one => ['z']
  | .run => []

theorem isCut_sample (hsame : ∀ c, same c c) (hfree : free 'z') (items : List Item) :
    IsCut same free items (items.flatMap Item.sample) := by
  induction items with
  | nil => exact isCut_nil.2 rfl
  | cons item items ih =>
      refine isCut_cons.2 ⟨item.sample, _, rfl, ?_, ih⟩
      cases item with
      | char c => exact ⟨c, rfl, hsame c⟩
      | one => exact ⟨'z', rfl, hfree⟩
      | run => exact List.forall_mem_nil _

theorem length_sample (items : List Item) :
    (items.flatMap Item.sample).length = (fixed items).length := by
  induction items with
  | nil => rfl
  | cons item items ih =>
      rw [List.flatMap_cons, List.length_append, ih]
      cases item with
      | char c => rw [fixed_cons_of_ne (by simp)]; exact Nat.add_comm _ _
      | one => rw [fixed_cons_of_ne (by simp)]; exact Nat.add_comm _ _
      | run => rw [fixed_run_cons]; exact Nat.zero_add _

/-- A pattern in which some full stops stand for any character. -/
inductive Item.Dots : Item → Item → Prop
  | same (item : Item) : Dots item item
  | dot : Dots (.char '.') .one

theorem length_fixed_eq_of_dots (h : List.Forall₂ Item.Dots xs ys) :
    (fixed xs).length = (fixed ys).length := by
  induction h with
  | nil => rfl
  | @cons x y xs ys hitem _ ih =>
      cases hitem with
      | same =>
          by_cases hrun : x = .run
          · rw [hrun, fixed_run_cons, fixed_run_cons, ih]
          · rw [fixed_cons_of_ne hrun, fixed_cons_of_ne hrun]
            exact congrArg Nat.succ ih
      | dot => exact congrArg Nat.succ ih

/-- The sample of a pattern shows where a full stop stands for any character. -/
theorem eq_of_isCut_sample (hdot : ¬same '.' 'z') (h : List.Forall₂ Item.Dots xs ys)
    (hcut : IsCut same free xs (ys.flatMap Item.sample)) : xs = ys := by
  induction h with
  | nil => rfl
  | @cons x y xs ys hitem hrest ih =>
      obtain ⟨piece, rest, htext, hpiece, htail⟩ := isCut_cons.1 hcut
      rw [List.flatMap_cons] at htext
      cases hitem with
      | dot =>
          obtain ⟨d, rfl, hd⟩ := hpiece
          obtain ⟨rfl, -⟩ := List.cons.inj htext
          exact absurd hd hdot
      | same =>
          refine congrArg (x :: ·) (ih ?_)
          cases x with
          | char c =>
              obtain ⟨d, rfl, -⟩ := hpiece
              have hbehind : ys.flatMap Item.sample = rest := (List.cons.inj htext).2
              rwa [hbehind]
          | one =>
              obtain ⟨d, rfl, -⟩ := hpiece
              have hbehind : ys.flatMap Item.sample = rest := (List.cons.inj htext).2
              rwa [hbehind]
          | run =>
              -- The other items need the whole text, so that nothing is left for the run.
              have hle := length_fixed_le_of_isCut htail
              have hlength := congrArg List.length htext
              rw [Item.sample, List.nil_append, length_sample, ← length_fixed_eq_of_dots hrest,
                List.length_append] at hlength
              have hnil : piece = [] := List.length_eq_zero_iff.1 (by omega)
              rw [Item.sample, List.nil_append, hnil, List.nil_append] at htext
              rwa [htext]

end Like

end FilterEncoding
