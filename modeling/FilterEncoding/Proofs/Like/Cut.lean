import FilterEncoding.Like.Regex
import Mathlib.Data.List.Forall2

/-!
# Texts cut along a pattern

What a pattern means, apart from how it is read and matched: a pattern is read from left to right as
a list of items, and it accepts a text that can be cut, in order, into one piece for each item.

* `Like.Reads` — the items of a pattern, one case for each way a pattern can go on; `reads_iff` says
  that these are the items that it is read as.
* `Like.IsCut` — the texts that can be cut; `accepts_iff` says that these are accepted.
-/

namespace FilterEncoding

/-- The metacharacters that a filter declares: the first character of each attribute. -/
structure LikeOptions.Declares (o : LikeOptions) (m : Metacharacters) : Prop where
  wildcard : o.wildcard.toList.head? = some m.wildcard
  single : o.singleCharacter.toList.head? = some m.single
  escape : o.escape.toList.head? = some m.escape

theorem LikeOptions.metacharacters?_eq_some_iff {o : LikeOptions} {m : Metacharacters} :
    o.metacharacters? = some m ↔ o.Declares m := by
  unfold metacharacters?
  constructor
  · intro h
    split at h
    · next wildcard _ single _ escape _ hwildcard hsingle hescape =>
      cases h
      exact ⟨by rw [hwildcard, List.head?_cons], by rw [hsingle, List.head?_cons],
        by rw [hescape, List.head?_cons]⟩
    · cases h
  · rintro ⟨hwildcard, hsingle, hescape⟩
    rw [List.head?_eq_some_iff] at hwildcard hsingle hescape
    obtain ⟨_, hwildcard⟩ := hwildcard
    obtain ⟨_, hsingle⟩ := hsingle
    obtain ⟨_, hescape⟩ := hescape
    rw [hwildcard, hsingle, hescape]

namespace Like

/-! ## The items of a pattern -/

/-- The items of a pattern.  The escape character takes the next character with it, and comes before
the wildcard, which comes before the single character. -/
inductive Reads (m : Metacharacters) : List Char → List Item → Prop
  | nil : Reads m [] []
  /-- An escape character at the end stands for nothing. -/
  | loneEscape : Reads m [m.escape] []
  | escaped (d : Char) {cs : List Char} {is : List Item} (h : Reads m cs is) :
      Reads m (m.escape :: d :: cs) (.char d :: is)
  | wildcard {cs : List Char} {is : List Item} (hescape : m.wildcard ≠ m.escape)
      (h : Reads m cs is) : Reads m (m.wildcard :: cs) (.run :: is)
  | single {cs : List Char} {is : List Item} (hescape : m.single ≠ m.escape)
      (hwildcard : m.single ≠ m.wildcard) (h : Reads m cs is) :
      Reads m (m.single :: cs) (.one :: is)
  | other {c : Char} {cs : List Char} {is : List Item} (hescape : c ≠ m.escape)
      (hwildcard : c ≠ m.wildcard) (hsingle : c ≠ m.single) (h : Reads m cs is) :
      Reads m (c :: cs) (.char c :: is)

theorem items_escape (m : Metacharacters) (d : Char) (cs : List Char) :
    items m (m.escape :: d :: cs) = .char d :: items m cs := by
  rw [items, if_pos rfl]

/-- A character that is no escape character is an item of its own. -/
theorem items_cons_of_ne {m : Metacharacters} {c : Char} (hc : c ≠ m.escape) (cs : List Char) :
    items m (c :: cs) = .ofChar m c :: items m cs := by
  cases cs with
  | nil => exact if_neg hc
  | cons d cs => rw [items, if_neg hc]

/-- The item of a character in front of the rest of a pattern. -/
theorem reads_ofChar {m : Metacharacters} {c : Char} (hc : c ≠ m.escape) {cs : List Char}
    {is : List Item} (h : Reads m cs is) : Reads m (c :: cs) (.ofChar m c :: is) := by
  unfold Item.ofChar
  by_cases hwildcard : c = m.wildcard
  · rw [if_pos hwildcard, hwildcard]
    exact .wildcard (hwildcard ▸ hc) h
  · rw [if_neg hwildcard]
    by_cases hsingle : c = m.single
    · rw [if_pos hsingle, hsingle]
      exact .single (hsingle ▸ hc) (hsingle ▸ hwildcard) h
    · rw [if_neg hsingle]
      exact .other hc hwildcard hsingle h

theorem reads_items (m : Metacharacters) (cs : List Char) : Reads m cs (items m cs) := by
  fun_induction items m cs with
  | case1 => exact .nil
  | case2 => exact .loneEscape
  | case3 c hc => exact reads_ofChar hc .nil
  | case4 d cs ih => exact .escaped d ih
  | case5 c d cs hc ih => exact reads_ofChar hc ih

theorem Reads.eq_items {m : Metacharacters} {cs : List Char} {is : List Item}
    (h : Reads m cs is) : is = items m cs := by
  induction h with
  | nil => rfl
  | loneEscape => rw [items, if_pos rfl]
  | escaped d _ ih => rw [items_escape, ih]
  | wildcard hescape _ ih => rw [items_cons_of_ne hescape, Item.ofChar, if_pos rfl, ih]
  | single hescape hwildcard _ ih =>
      rw [items_cons_of_ne hescape, Item.ofChar, if_neg hwildcard, if_pos rfl, ih]
  | other hescape hwildcard hsingle _ ih =>
      rw [items_cons_of_ne hescape, Item.ofChar, if_neg hwildcard, if_neg hsingle, ih]

/-- A pattern has one list of items, which it is read as. -/
theorem reads_iff {m : Metacharacters} {cs : List Char} {is : List Item} :
    Reads m cs is ↔ is = items m cs :=
  ⟨Reads.eq_items, fun h => h ▸ reads_items m cs⟩

theorem Reads.wildcard_ne_escape {m : Metacharacters} {cs : List Char} {is : List Item}
    (h : Reads m cs is) (hrun : .run ∈ is) : m.wildcard ≠ m.escape := by
  induction h with
  | nil => cases hrun
  | loneEscape => cases hrun
  | wildcard hescape _ _ => exact hescape
  | escaped d _ ih => exact ih ((List.mem_cons.1 hrun).resolve_left nofun)
  | single _ _ _ ih => exact ih ((List.mem_cons.1 hrun).resolve_left nofun)
  | other _ _ _ _ ih => exact ih ((List.mem_cons.1 hrun).resolve_left nofun)

theorem Reads.single_ne_escape {m : Metacharacters} {cs : List Char} {is : List Item}
    (h : Reads m cs is) (hone : .one ∈ is) : m.single ≠ m.escape := by
  induction h with
  | nil => cases hone
  | loneEscape => cases hone
  | single hescape _ _ _ => exact hescape
  | escaped d _ ih => exact ih ((List.mem_cons.1 hone).resolve_left nofun)
  | wildcard _ _ ih => exact ih ((List.mem_cons.1 hone).resolve_left nofun)
  | other _ _ _ _ ih => exact ih ((List.mem_cons.1 hone).resolve_left nofun)

/-! ## The pieces of a text -/

section Cut

variable (same : Char → Char → Prop) (free : Char → Prop)

/-- The piece of a text that an item covers: a character covers one that is the same, and the other
items cover free characters, exactly one or any number. -/
def Item.Covers : Item → List Char → Prop
  | .char c, piece => ∃ d, piece = [d] ∧ same c d
  | .one, piece => ∃ d, piece = [d] ∧ free d
  | .run, piece => ∀ d ∈ piece, free d

/-- A text that can be cut, in order, into one piece for each item. -/
def IsCut (pattern : List Item) (text : List Char) : Prop :=
  ∃ pieces : List (List Char), text = pieces.flatten ∧
    List.Forall₂ (Item.Covers same free) pattern pieces

variable {same free}

theorem isCut_nil {text : List Char} : IsCut same free [] text ↔ text = [] := by
  constructor
  · rintro ⟨pieces, rfl, h⟩
    cases h
    rfl
  · rintro rfl
    exact ⟨[], rfl, .nil⟩

theorem isCut_cons {item : Item} {items : List Item} {text : List Char} :
    IsCut same free (item :: items) text ↔
      ∃ piece rest, text = piece ++ rest ∧ item.Covers same free piece ∧
        IsCut same free items rest := by
  constructor
  · rintro ⟨pieces, rfl, h⟩
    cases h with
    | cons hpiece hpieces => exact ⟨_, _, rfl, hpiece, _, rfl, hpieces⟩
  · rintro ⟨piece, _, rfl, hpiece, pieces, rfl, hpieces⟩
    exact ⟨piece :: pieces, rfl, .cons hpiece hpieces⟩

end Cut

/-! ## Matching -/

/-- Equal characters, or characters that are equal up to case if that is disregarded. -/
def SameUpTo (ignoreCase : Bool) (c d : Char) : Prop :=
  if ignoreCase then fold c = fold d else c = d

/-- The characters that one or a run stands for. -/
def IsWithinLine (d : Char) : Prop :=
  d ≠ '\n'

theorem sameChar_iff {ignoreCase : Bool} {c d : Char} :
    sameChar ignoreCase c d = true ↔ SameUpTo ignoreCase c d := by
  cases ignoreCase <;> simp [sameChar, SameUpTo]

theorem exists_piece_cons {text : List Char} {P : Char → Prop} {Q : List Char → Prop} :
    (∃ piece rest, text = piece ++ rest ∧ (∃ d, piece = [d] ∧ P d) ∧ Q rest) ↔
      ∃ d rest, text = d :: rest ∧ P d ∧ Q rest := by
  constructor
  · rintro ⟨_, rest, rfl, ⟨d, rfl, hd⟩, hrest⟩
    exact ⟨d, rest, rfl, hd, hrest⟩
  · rintro ⟨d, rest, rfl, hd, hrest⟩
    exact ⟨[d], rest, rfl, ⟨d, rfl, hd⟩, hrest⟩

theorem exists_append_cons_iff {d : Char} {text : List Char} {R : List Char → List Char → Prop} :
    (∃ piece rest, d :: text = piece ++ rest ∧ R piece rest) ↔
      R [] (d :: text) ∨ ∃ piece rest, text = piece ++ rest ∧ R (d :: piece) rest := by
  constructor
  · rintro ⟨piece, rest, htext, h⟩
    cases piece with
    | nil => exact .inl ((List.nil_append rest ▸ htext) ▸ h)
    | cons e piece =>
        rw [List.cons_append, List.cons.injEq] at htext
        exact .inr ⟨piece, rest, htext.2, htext.1 ▸ h⟩
  · rintro (h | ⟨piece, rest, rfl, h⟩)
    · exact ⟨[], d :: text, rfl, h⟩
    · exact ⟨d :: piece, rest, rfl, h⟩

/-- An item with a test of the rest holds of a text that starts with a piece for the item. -/
theorem followedBy_iff {ignoreCase : Bool} {item : Item} {test : List Char → Bool}
    {text : List Char} :
    item.followedBy ignoreCase test text = true ↔
      ∃ piece rest, text = piece ++ rest ∧ item.Covers (SameUpTo ignoreCase) IsWithinLine piece ∧
        test rest = true := by
  cases item with
  | char c =>
      simp only [Item.Covers, exists_piece_cons]
      cases text with
      | nil => simp [Item.followedBy, Item.coversEnd]
      | cons d text => simp [Item.followedBy, Item.covers, sameChar_iff]
  | one =>
      simp only [Item.Covers, exists_piece_cons]
      cases text with
      | nil => simp [Item.followedBy, Item.coversEnd]
      | cons d text => simp [Item.followedBy, Item.covers, IsWithinLine]
  | run =>
      induction text with
      | nil => simp [Item.followedBy, Item.coversEnd, Item.Covers]
      | cons d text ih =>
          -- The run covers nothing, or the first character and a piece of the rest.
          rw [Item.followedBy, Item.covers, Bool.or_eq_true, Bool.and_eq_true, ih,
            exists_append_cons_iff, bne_iff_ne]
          simp only [Item.Covers, List.forall_mem_cons, List.not_mem_nil, false_implies,
            implies_true, true_and]
          refine or_congr_right ⟨?_, ?_⟩
          · rintro ⟨hd, piece, rest, rfl, hpiece, hrest⟩
            exact ⟨piece, rest, rfl, ⟨hd, hpiece⟩, hrest⟩
          · rintro ⟨piece, rest, rfl, ⟨hd, hpiece⟩, hrest⟩
            exact ⟨hd, piece, rest, rfl, hpiece, hrest⟩

/-- The texts that a pattern accepts are those that can be cut along it. -/
theorem accepts_iff {ignoreCase : Bool} {pattern : List Item} {text : List Char} :
    accepts ignoreCase pattern text = true ↔
      IsCut (SameUpTo ignoreCase) IsWithinLine pattern text := by
  induction pattern generalizing text with
  | nil => rw [accepts_nil, isCut_nil, List.isEmpty_iff]
  | cons item items ih =>
      rw [accepts_cons, followedBy_iff, isCut_cons]
      simp only [ih]

end Like

end FilterEncoding
