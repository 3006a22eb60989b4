import FilterEncoding.Proofs.Expression.Expressible
import FilterEncoding.Proofs.Like.Cut

/-!
# Regular expressions as they are read

The regular expressions that patterns are written as use little of the syntax: anchors, `.`, a
repetition by `*`, characters that stand for themselves, and punctuation behind a backslash.  Here
is how an engine reads this part of the syntax and what it matches; an expression that uses more has
no reading.

* `Regex.read?` — the parts of an expression.
* `Regex.Matches` — the texts in which an expression finds a match.
* `Regex.read?_anchored` — items that are written between anchors are read back.
* `Regex.matches_anchored_iff` — such an expression matches the texts that can be cut along the
  items.
* `LikeOptions.regex_matches_iff_isCut` — the statement about patterns.
-/

namespace FilterEncoding

open Like (Item IsCut IsWithinLine SameUpTo Reads)

namespace Regex

/-- A part of an expression that is not repeated. -/
inductive Atom where
  /-- The start of the text. -/
  | start
  /-- The end of the text. -/
  | finish
  /-- A character other than a line feed. -/
  | any
  | char (c : Char)
  deriving Repr, DecidableEq

inductive Part where
  | once (a : Atom)
  /-- Any number of times, also none. -/
  | many (a : Atom)
  deriving Repr, DecidableEq

end Regex

/-- An expression as it is read. -/
structure Regex where
  ignoreCase : Bool
  parts : List Regex.Part
  deriving Repr, DecidableEq

namespace Regex

/-! ## Reading -/

/-- A character of an expression, as one that stands for itself or as an operator. -/
inductive Symbol where
  | literal (c : Char)
  | operator (c : Char)
  deriving Repr, DecidableEq

/-- The characters that are operators where no backslash stands in front of them. -/
def operators : List Char :=
  ['^', '$', '.', '*', '+', '?', '(', ')', '[', '\x7b', '|']

/-- The characters that stand for themselves behind a backslash. -/
def punctuation : List Char :=
  ['\\', '.', '+', '*', '?', '(', ')', '|', '[', ']', '\x7b', '\x7d', '^', '$', '#', '&', '-', '~']

def Symbol.ofChar (c : Char) : Symbol :=
  if c ∈ operators then .operator c else .literal c

/-- The symbols of an expression.  Behind a backslash there has to be punctuation. -/
def symbols? : List Char → Option (List Symbol)
  | [] => some []
  | [c] => if c = '\\' then none else some [.ofChar c]
  | c :: d :: cs =>
      if c = '\\' then
        if d ∈ punctuation then (symbols? cs).map (.literal d :: ·) else none
      else (symbols? (d :: cs)).map (.ofChar c :: ·)

/-- The parts in front of a symbol, the last one first, together with the symbol.  A repetition is
one of the part in front of it. -/
def push : List Part → Symbol → Option (List Part)
  | parts, .literal c => some (.once (.char c) :: parts)
  | parts, .operator '^' => some (.once .start :: parts)
  | parts, .operator '$' => some (.once .finish :: parts)
  | parts, .operator '.' => some (.once .any :: parts)
  | .once a :: parts, .operator '*' => some (.many a :: parts)
  | _, .operator _ => none

/-- The parts of a list of symbols. -/
def parts? (symbols : List Symbol) : Option (List Part) :=
  (symbols.foldlM push []).map List.reverse

/-- Read an expression.  A flag in front of it says that it disregards letter case. -/
def read? (expression : String) : Option Regex :=
  match expression.toList with
  | '(' :: '?' :: 'i' :: ')' :: cs => ((symbols? cs).bind parts?).map (⟨true, ·⟩)
  | cs => ((symbols? cs).bind parts?).map (⟨false, ·⟩)

/-! ## Matching -/

/-- The piece of a text, between what stands before and behind it, that an atom covers. -/
def Atom.Covers (ignoreCase : Bool) : Atom → List Char → List Char → List Char → Prop
  | .start, before, piece, _ => before = [] ∧ piece = []
  | .finish, _, piece, after => piece = [] ∧ after = []
  | .any, _, piece, _ => ∃ d, piece = [d] ∧ IsWithinLine d
  | .char c, _, piece, _ => ∃ d, piece = [d] ∧ SameUpTo ignoreCase c d

/-- The piece of a text, between what stands before and behind it, that the parts of an expression
cover one behind the other. -/
inductive Covers (ignoreCase : Bool) :
    List Part → List Char → List Char → List Char → Prop
  | nil {before after : List Char} : Covers ignoreCase [] before [] after
  | once {a : Atom} {parts : List Part} {before piece rest after : List Char}
      (hfirst : a.Covers ignoreCase before piece (rest ++ after))
      (hrest : Covers ignoreCase parts (before ++ piece) rest after) :
      Covers ignoreCase (.once a :: parts) before (piece ++ rest) after
  | stop {a : Atom} {parts : List Part} {before piece after : List Char}
      (h : Covers ignoreCase parts before piece after) :
      Covers ignoreCase (.many a :: parts) before piece after
  | again {a : Atom} {parts : List Part} {before piece rest after : List Char}
      (hfirst : a.Covers ignoreCase before piece (rest ++ after))
      (hrest : Covers ignoreCase (.many a :: parts) (before ++ piece) rest after) :
      Covers ignoreCase (.many a :: parts) before (piece ++ rest) after

/-- Whether an expression finds a match somewhere in a text. -/
def Matches (r : Regex) (text : List Char) : Prop :=
  ∃ before piece after, text = before ++ piece ++ after ∧
    Covers r.ignoreCase r.parts before piece after

/-! ## Items that are read back -/

/-- A character with a backslash in front of it if it is one of some. -/
def backslashedIn (specials : List Char) (c : Char) : List Char :=
  if specials.contains c then ['\\', c] else [c]

/-- An item whose character is written in some way. -/
def itemChars (write : Char → List Char) : Item → List Char
  | .char c => write c
  | .one => ['.']
  | .run => ['.', '*']

/-- The symbols that an item is written with. -/
def itemSymbols : Item → List Symbol
  | .char c => [.literal c]
  | .one => [.operator '.']
  | .run => [.operator '.', .operator '*']

/-- The part of an expression that an item is. -/
def itemPart : Item → Part
  | .char c => .once (.char c)
  | .one => .once .any
  | .run => .many .any

/-- The parts of an expression that has some items between anchors. -/
def anchored (items : List Item) : List Part :=
  .once .start :: (items.map itemPart ++ [.once .finish])

theorem symbols?_cons_of_ne {c : Char} (hc : c ≠ '\\') (cs : List Char) :
    symbols? (c :: cs) = (symbols? cs).map (.ofChar c :: ·) := by
  cases cs with
  | nil => exact if_neg hc
  | cons d cs => rw [symbols?, if_neg hc]

theorem symbols?_backslash {d : Char} (hd : d ∈ punctuation) (cs : List Char) :
    symbols? ('\\' :: d :: cs) = (symbols? cs).map (.literal d :: ·) := by
  rw [symbols?, if_pos rfl, if_pos hd]

/-- Behind a backslash where it needs one, a character is read as itself. -/
theorem symbols?_backslashedIn {specials : List Char} (hoperators : '\\' :: operators ⊆ specials)
    (hpunctuation : specials ⊆ punctuation) (c : Char) (cs : List Char) :
    symbols? (backslashedIn specials c ++ cs) = (symbols? cs).map (.literal c :: ·) := by
  unfold backslashedIn
  split
  · next hspecial => exact symbols?_backslash (hpunctuation (List.contains_iff_mem.1 hspecial)) cs
  · next hplain =>
    rw [List.contains_iff_mem] at hplain
    have hbackslash : c ≠ '\\' := fun h => hplain (hoperators (h ▸ List.mem_cons_self))
    have hoperator : c ∉ operators := fun h => hplain (hoperators (List.mem_cons_of_mem _ h))
    rw [List.singleton_append, symbols?_cons_of_ne hbackslash, Symbol.ofChar, if_neg hoperator]

section Write

variable {write : Char → List Char}

theorem symbols?_itemChars
    (hwrite : ∀ c cs, symbols? (write c ++ cs) = (symbols? cs).map (.literal c :: ·))
    (item : Item) (cs : List Char) :
    symbols? (itemChars write item ++ cs) = (symbols? cs).map (itemSymbols item ++ ·) := by
  cases item with
  | char c => exact hwrite c cs
  | one => exact symbols?_cons_of_ne (by decide) cs
  | run =>
      change symbols? ('.' :: '*' :: cs) = _
      rw [symbols?_cons_of_ne (by decide), symbols?_cons_of_ne (by decide), Option.map_map]
      rfl

/-- Items are read back, if each character is read as itself. -/
theorem symbols?_items
    (hwrite : ∀ c cs, symbols? (write c ++ cs) = (symbols? cs).map (.literal c :: ·))
    (items : List Item) :
    symbols? (items.flatMap (itemChars write) ++ ['$']) =
      some (items.flatMap itemSymbols ++ [.operator '$']) := by
  induction items with
  | nil => rfl
  | cons item items ih =>
      rw [List.flatMap_cons, List.append_assoc, symbols?_itemChars hwrite, ih, List.flatMap_cons,
        List.append_assoc]
      rfl

end Write

theorem foldlM_push_itemSymbols (parts : List Part) (item : Item) :
    (itemSymbols item).foldlM push parts = some (itemPart item :: parts) := by
  cases item <;> rfl

theorem foldlM_push_items (items : List Item) (parts : List Part) :
    (items.flatMap itemSymbols).foldlM push parts =
      some ((items.map itemPart).reverse ++ parts) := by
  induction items generalizing parts with
  | nil => rfl
  | cons item items ih =>
      rw [List.flatMap_cons, List.foldlM_append, foldlM_push_itemSymbols]
      simp [ih]

theorem parts?_anchored (items : List Item) :
    parts? (.operator '^' :: (items.flatMap itemSymbols ++ [.operator '$'])) =
      some (anchored items) := by
  have hstart : push [] (.operator '^') = some [.once .start] := rfl
  rw [parts?, List.foldlM_cons, hstart, Option.bind_eq_bind, Option.bind_some, List.foldlM_append,
    foldlM_push_items]
  simp [push, anchored]

/-- Items that are written between anchors are read back, if their symbols are. -/
theorem read?_anchored {items : List Item} {body : List Char} (ignoreCase : Bool)
    (h : symbols? (body ++ ['$']) = some (items.flatMap itemSymbols ++ [.operator '$'])) :
    read? ((if ignoreCase then "(?i)^" else "^") ++ String.ofList body ++ "$") =
      some ⟨ignoreCase, anchored items⟩ := by
  have hsymbols : symbols? ('^' :: (body ++ ['$'])) =
      some (.operator '^' :: (items.flatMap itemSymbols ++ [.operator '$'])) := by
    rw [symbols?_cons_of_ne (by decide), h]
    rfl
  have hparts : (symbols? ('^' :: (body ++ ['$']))).bind parts? = some (anchored items) := by
    rw [hsymbols, Option.bind_some, parts?_anchored]
  cases ignoreCase with
  | true =>
      have htext : ("(?i)^" ++ String.ofList body ++ "$").toList =
          '(' :: '?' :: 'i' :: ')' :: '^' :: (body ++ ['$']) := by simp
      simp only [read?, if_true, htext, hparts, Option.map_some]
  | false =>
      have htext : ("^" ++ String.ofList body ++ "$").toList = '^' :: (body ++ ['$']) := by simp
      simp only [read?, Bool.false_eq_true, if_false, htext]
      exact congrArg (Option.map _) hparts

/-! ## What items match -/

variable {ignoreCase : Bool}

theorem covers_once {a : Atom} {parts : List Part} {before text after : List Char} :
    Covers ignoreCase (.once a :: parts) before text after ↔
      ∃ piece rest, text = piece ++ rest ∧ a.Covers ignoreCase before piece (rest ++ after) ∧
        Covers ignoreCase parts (before ++ piece) rest after := by
  constructor
  · intro h
    cases h with
    | once hfirst hrest => exact ⟨_, _, rfl, hfirst, hrest⟩
  · rintro ⟨piece, rest, rfl, hfirst, hrest⟩
    exact .once hfirst hrest

/-- A repetition covers a run of characters within a line. -/
theorem covers_run {parts : List Part} {before text after : List Char} :
    Covers ignoreCase (.many .any :: parts) before text after ↔
      ∃ piece rest, text = piece ++ rest ∧ (∀ d ∈ piece, IsWithinLine d) ∧
        Covers ignoreCase parts (before ++ piece) rest after := by
  constructor
  · intro h
    generalize hparts : Part.many .any :: parts = repeated at h
    induction h with
    | nil => cases hparts
    | once _ _ => cases hparts
    | stop h =>
        cases hparts
        exact ⟨[], _, rfl, List.forall_mem_nil _, (List.append_nil _).symm ▸ h⟩
    | again hfirst _ ih =>
        cases hparts
        obtain ⟨d, rfl, hd⟩ := hfirst
        obtain ⟨piece, rest, rfl, hpiece, hrest⟩ := ih rfl
        refine ⟨d :: piece, rest, rfl, List.forall_mem_cons.2 ⟨hd, hpiece⟩, ?_⟩
        rwa [List.append_assoc] at hrest
  · rintro ⟨piece, rest, rfl, hpiece, hrest⟩
    induction piece generalizing before with
    | nil => exact .stop (by rwa [List.append_nil] at hrest)
    | cons d piece ih =>
        rw [List.forall_mem_cons] at hpiece
        change Covers ignoreCase (.many .any :: parts) before ([d] ++ (piece ++ rest)) after
        refine .again ⟨d, rfl, hpiece.1⟩ (ih hpiece.2 ?_)
        rwa [List.append_assoc]

theorem covers_item {item : Item} {parts : List Part} {before text after : List Char} :
    Covers ignoreCase (itemPart item :: parts) before text after ↔
      ∃ piece rest, text = piece ++ rest ∧ item.Covers (SameUpTo ignoreCase) IsWithinLine piece ∧
        Covers ignoreCase parts (before ++ piece) rest after := by
  cases item with
  | char c => exact covers_once
  | one => exact covers_once
  | run => exact covers_run

/-- Items in front of the end of the text cover what can be cut along them. -/
theorem covers_items {items : List Item} {before text after : List Char} :
    Covers ignoreCase (items.map itemPart ++ [.once .finish]) before text after ↔
      IsCut (SameUpTo ignoreCase) IsWithinLine items text ∧ after = [] := by
  induction items generalizing before text with
  | nil =>
      rw [Like.isCut_nil, List.map_nil, List.nil_append, covers_once]
      constructor
      · rintro ⟨piece, rest, rfl, ⟨rfl, hafter⟩, hrest⟩
        cases hrest
        exact ⟨rfl, hafter⟩
      · rintro ⟨rfl, rfl⟩
        exact ⟨[], [], rfl, ⟨rfl, rfl⟩, .nil⟩
  | cons item items ih =>
      rw [List.map_cons, List.cons_append, covers_item, Like.isCut_cons]
      simp only [ih]
      constructor
      · rintro ⟨piece, rest, htext, hpiece, hrest, hafter⟩
        exact ⟨⟨piece, rest, htext, hpiece, hrest⟩, hafter⟩
      · rintro ⟨⟨piece, rest, htext, hpiece, hrest⟩, hafter⟩
        exact ⟨piece, rest, htext, hpiece, hrest, hafter⟩

/-- An expression of items between anchors matches the texts that can be cut along the items. -/
theorem matches_anchored_iff {items : List Item} {text : List Char} :
    Matches ⟨ignoreCase, anchored items⟩ text ↔
      IsCut (SameUpTo ignoreCase) IsWithinLine items text := by
  constructor
  · rintro ⟨before, whole, after, rfl, h⟩
    obtain ⟨piece, rest, rfl, ⟨rfl, rfl⟩, hrest⟩ := covers_once.1 h
    obtain ⟨hcut, rfl⟩ := covers_items.1 hrest
    simpa using hcut
  · intro h
    refine ⟨[], text, [], by simp, covers_once.2 ⟨[], text, rfl, ⟨rfl, rfl⟩, ?_⟩⟩
    exact covers_items.2 ⟨h, rfl⟩

end Regex

/-! ## Patterns as expressions -/

namespace Like

open Regex

theorem regex_eq_itemChars (item : Item) : item.regex = itemChars escaped item := by
  cases item <;> rfl

/-- An escaped character is read as itself, whatever meaning it has elsewhere. -/
theorem symbols?_escaped (c : Char) (cs : List Char) :
    symbols? (escaped c ++ cs) = (symbols? cs).map (.literal c :: ·) :=
  symbols?_backslashedIn (by decide) (by decide) c cs

/-- The expression of a pattern is read as its items between anchors. -/
theorem read?_regex (ignoreCase : Bool) (items : List Item) :
    read? (regex ignoreCase items) = some ⟨ignoreCase, anchored items⟩ := by
  rw [regex, funext regex_eq_itemChars]
  exact read?_anchored ignoreCase (symbols?_items symbols?_escaped items)

end Like

/-- A pattern has an expression if no metacharacter is missing.  The expression is read as the items
of the pattern between anchors, so that no other character of the pattern has a meaning in it, and
it matches the texts that can be cut, in order, into one piece for each item.  These are the texts
that the pattern accepts. -/
theorem LikeOptions.regex_matches_iff_isCut {o : LikeOptions} (h : o.IsComplete)
    (pattern text : String) :
    ∃ m items expression accepted, o.Declares m ∧ Reads m pattern.toList items ∧
      o.regex? pattern = some expression ∧
      Regex.read? expression = some ⟨o.ignoreCase, Regex.anchored items⟩ ∧
      (Regex.Matches ⟨o.ignoreCase, Regex.anchored items⟩ text.toList ↔
        IsCut (SameUpTo o.ignoreCase) IsWithinLine items text.toList) ∧
      o.accepts? pattern text = some accepted ∧
      (accepted = true ↔ IsCut (SameUpTo o.ignoreCase) IsWithinLine items text.toList) := by
  obtain ⟨m, hm⟩ := Option.isSome_iff_exists.1 (o.isSome_metacharacters?_iff.2 h)
  refine ⟨m, Like.items m pattern.toList, _, _, metacharacters?_eq_some_iff.1 hm,
    Like.reads_items m _, ?_, Like.read?_regex _ _, Regex.matches_anchored_iff, ?_,
    Like.accepts_iff⟩
  · rw [regex?, hm, Option.map_some]
  · rw [accepts?, hm, Option.map_some]

/-- A full stop that is the wildcard and the single character is the wildcard, and an asterisk
stands for itself. -/
theorem LikeOptions.regex_matches_iff_isCut_coinciding_metacharacters :
    IsComplete ⟨".", ".", "\\", true⟩ ∧
      ∃ items, Reads ⟨'.', '.', '\\'⟩ ".*\\.".toList items ∧
        items = [.run, .char '*', .char '.'] ∧
        regex? ⟨".", ".", "\\", true⟩ ".*\\." = some "(?i)^.*\\*\\.$" ∧
        accepts? ⟨".", ".", "\\", true⟩ ".*\\." "a*." = some true ∧
        Regex.Matches ⟨true, Regex.anchored items⟩ "a*.".toList := by
  have h : IsComplete ⟨".", ".", "\\", true⟩ := ⟨by decide, by decide, by decide⟩
  obtain ⟨m, items, expression, accepted, hm, hitems, hregex, -, hmatches, haccepts, hcut⟩ :=
    regex_matches_iff_isCut h ".*\\." "a*."
  have hmeta : m = ⟨'.', '.', '\\'⟩ :=
    Option.some.inj ((metacharacters?_eq_some_iff.2 hm).symm.trans rfl)
  subst hmeta
  have htrue : accepted = true := by
    refine Option.some.inj (haccepts.symm.trans ?_)
    decide +kernel
  refine ⟨h, items, hitems, hitems.eq_items, rfl, haccepts.trans (congrArg some htrue), ?_⟩
  exact hmatches.2 (hcut.1 htrue)

end FilterEncoding
