import FilterEncoding.Proofs.Chars.Words
import FilterEncoding.Proofs.Geometry.Exchange
import FilterEncoding.Proofs.Gml.Positions
import FilterEncoding.Proofs.Number.Values

/-!
# The encodings of positions

A list of positions is read as the same list in all encodings, at every place where a geometry
element has one.

* `PositionTexts` — a list of positions as it is written, with a token for each number.
* `PositionTexts.IsWrittenAt` — the ways to write a list of positions below an element.
* `positions_of_isWrittenAt` — the positions at a place are those of the list written there.
-/

namespace FilterEncoding.Gml

open FilterEncoding.Chars (IsWord Spaced)
open FilterEncoding.Geometry (Polygon Position Shape)
open FilterEncoding.Xml (Node)

/-! ## Written positions -/

/-- A token that stands for a number in any of the encodings. -/
@[mk_iff]
structure IsToken (t : String) : Prop where
  ne_empty : t ≠ ""
  notBlank : ∀ c ∈ t.toList, Chars.isBlank c = false
  noComma : ',' ∉ t.toList

/-- The characters are tested one by one. -/
instance (t : String) : Decidable (IsToken t) :=
  decidable_of_iff (t ≠ "" ∧ (t.toList.all fun c => !Chars.isBlank c) = true ∧ ',' ∉ t.toList)
    (by simp [isToken_iff])

theorem IsToken.isWord {t : String} (h : IsToken t) : IsWord t.toList :=
  ⟨mt String.toList_eq_nil_iff.1 h.ne_empty, h.notBlank⟩

/-- A position as it is written: a token for each axis, of which there are at least two. -/
structure PositionText where
  x : String
  y : String
  further : List String

namespace PositionText

def tokens (p : PositionText) : List String :=
  p.x :: p.y :: p.further

/-- The position that the first two tokens denote. -/
def position (p : PositionText) : Position :=
  ⟨Number.leadingValue p.x, Number.leadingValue p.y⟩

theorem meets_position (p : PositionText) : p.position.meets p.position = true := by
  simp [position, Position.meets, Number.leadingValue_beq_self]

end PositionText

/-- A list of positions, all of them with the same number of axes. -/
structure PositionTexts where
  dimension : Nat
  first : PositionText
  others : List PositionText
  length_tokens : ∀ p ∈ first :: others, p.tokens.length = dimension
  isToken : ∀ p ∈ first :: others, ∀ t ∈ p.tokens, IsToken t

namespace PositionTexts

variable (list : PositionTexts)

def items : List PositionText :=
  list.first :: list.others

def positions : List Position :=
  list.items.map PositionText.position

theorem meets_of_mem_positions {p : Position} (h : p ∈ list.positions) : p.meets p = true := by
  obtain ⟨q, -, rfl⟩ := List.mem_map.1 h
  exact q.meets_position

end PositionTexts

/-! ## Encodings -/

/-- The text of an element, up to blanks around it. -/
def HasText (n : Node) (s : String) : Prop :=
  ∃ text, n.text? = some text ∧ Text.trim text = s

/-- The text of an element consists of words with blanks between them. -/
def HasWords (n : Node) (words : List String) : Prop :=
  ∃ text, n.text? = some text ∧ Spaced (words.map String.toList) text.toList

/-- A tuple has its tokens with a separator between them, and perhaps blanks around them. -/
def IsTuple (separator : Char) (tokens : List String) (tuple : String) : Prop :=
  ∃ values, Text.trim tuple = (String.singleton separator).intercalate values ∧
    values.map Text.trim = tokens

/-- A separator of tuples or of the tokens in them. -/
structure IsSeparator (c : Char) (list : PositionTexts) : Prop where
  notBlank : Chars.isBlank c = false
  notMem : ∀ p ∈ list.items, ∀ t ∈ p.tokens, c ∉ t.toList

/-- An element declares the dimension of the positions below it; two need not be declared. -/
def DeclaresDimension (n : Node) (d : Nat) : Prop :=
  match n.attribute? "srsDimension" with
  | none => d = 2
  | some text => Number.unsigned? (UInt64.size - 1) text = some d

/-- The ways to write a list of positions below some element of the geometry element `n`. -/
inductive PositionTexts.IsWrittenAt (list : PositionTexts) (n place : Node) : Prop
  /-- All tokens in one list, with the dimension on the geometry element. -/
  | posList {l : Node} (hlist : place.descendantsNamed ["posList"] = [l])
      (hdimension : DeclaresDimension n list.dimension)
      (hinherited : l.attribute? "srsDimension" = none)
      (htokens : HasWords l (list.items.flatMap PositionText.tokens))
  /-- An element for each position. -/
  | pos (hother : place.descendantsNamed ["posList"] = [])
      (hpos : List.Forall₂ (fun p m => HasWords m p.tokens) list.items
        (place.descendantsNamed ["pos"]))
  /-- Tuples with the default separators. -/
  | coordinates {m : Node} (hother : place.descendantsNamed ["posList", "pos"] = [])
      (hcoordinates : place.descendantsNamed ["coordinates"] = [m])
      (hts : separator "ts" " " m = " ") (hcs : separator "cs" "," m = ",")
      (htuples : HasWords m (list.items.map fun p => ",".intercalate p.tokens))
  /-- Tuples with two other characters as separators. -/
  | separated {m : Node} {ts cs : Char} {tuples : List String}
      (hother : place.descendantsNamed ["posList", "pos"] = [])
      (hcoordinates : place.descendantsNamed ["coordinates"] = [m])
      (hts : separator "ts" " " m = String.singleton ts)
      (hcs : separator "cs" "," m = String.singleton cs)
      (hseparators : IsSeparator ts list ∧ IsSeparator cs list ∧ ts ≠ cs)
      (htext : HasText m ((String.singleton ts).intercalate tuples))
      (htuples : List.Forall₂ (fun p tuple => IsTuple cs p.tokens tuple) list.items tuples)
  /-- An element for each of the first two axes of a position. -/
  | coord (hother : place.descendantsNamed ["posList", "pos", "coordinates"] = [])
      (hcoords : List.Forall₂ (fun p m => ∃ x y, m.child? "X" = some x ∧ m.child? "Y" = some y ∧
        HasText x p.x ∧ HasText y p.y) list.items (place.descendantsNamed ["coord"]))

/-! ## Texts -/

theorem trimmedText_of_hasText {n : Node} {s : String} (h : HasText n s) : trimmedText n = s := by
  obtain ⟨text, htext, rfl⟩ := h
  rw [trimmedText, htext, Option.getD_some]

/-- Words with one blank between any two of them. -/
theorem hasWords_intercalate {n : Node} {words : List String}
    (h : n.text? = some (" ".intercalate words)) : HasWords n words := by
  refine ⟨_, h, ?_⟩
  rw [String.toList_intercalate]
  exact Chars.spaced_intercalate (words.map String.toList)

theorem words_of_hasWords {n : Node} {words : List String} (h : HasWords n words)
    (hwords : ∀ w ∈ words, IsWord w.toList) : Text.words (trimmedText n) = words := by
  obtain ⟨text, htext, hspaced⟩ := h
  have hcut := Chars.words_of_spaced hspaced (List.forall_mem_map.2 hwords)
  rw [trimmedText, htext, Option.getD_some, Text.words_trim, Text.words, hcut, List.map_map]
  exact List.map_id'' (fun _ => String.ofList_toList) words

theorem numbers_of_hasWords {n : Node} {words : List String} (h : HasWords n words)
    (hwords : ∀ w ∈ words, IsWord w.toList) :
    numbers (trimmedText n) = words.map Number.leadingValue := by
  rw [numbers, words_of_hasWords h hwords]

/-- A text that is joined with a character that its pieces do not have is cut into these. -/
theorem piecesAround_intercalate {c : Char} {pieces : List String} (hne : pieces ≠ [])
    (hnot : ∀ piece ∈ pieces, c ∉ piece.toList) :
    Text.piecesAround (String.singleton c) ((String.singleton c).intercalate pieces) = pieces := by
  have hcut := List.splitOn_intercalate c (List.forall_mem_map.2 hnot)
    (mt List.map_eq_nil_iff.1 hne)
  rw [Text.piecesAround, String.toList_singleton, Chars.splitAround_singleton,
    String.toList_intercalate, String.toList_singleton, hcut, List.map_map]
  exact List.map_id'' (fun _ => String.ofList_toList) pieces

/-! ## Lists in one text -/

theorem two_le_dimension (list : PositionTexts) : 2 ≤ list.dimension := by
  rw [← list.length_tokens list.first List.mem_cons_self, PositionText.tokens]
  simp

/-- A list has a position, so there is something where it is written. -/
theorem ne_nil_of_forall₂_items {α : Type} {list : PositionTexts} {r : PositionText → α → Prop}
    {as : List α} (h : List.Forall₂ r list.items as) : as ≠ [] := by
  rintro rfl
  cases h

theorem isWord_of_mem_tokens {list : PositionTexts} {p : PositionText} (hp : p ∈ list.items)
    {t : String} (ht : t ∈ p.tokens) : IsWord t.toList :=
  (list.isToken p hp t ht).isWord

theorem dimension_of_declaresDimension {n : Node} {d : Nat} (h : DeclaresDimension n d)
    (hd : 2 ≤ d) : dimension 2 n = d := by
  unfold DeclaresDimension at h
  unfold dimension
  split at h
  · next hnone => rw [hnone, h]; rfl
  · next text hsome => rw [hsome, Option.bind_some, h, Option.getD_some, Nat.max_eq_right hd]

theorem dimension_inherited {n : Node} {d : Nat} (h : n.attribute? "srsDimension" = none)
    (hd : 2 ≤ d) : dimension d n = d := by
  rw [dimension, h, Option.bind_none, Option.getD_none, Nat.max_eq_right hd]

/-- The values of positions that all have the same dimension. -/
theorem everyPosition_flatMap {d : Nat} {items : List PositionText}
    (h : ∀ p ∈ items, p.tokens.length = d) :
    everyPosition d (items.flatMap fun p => p.tokens.map Number.leadingValue) =
      items.map PositionText.position := by
  induction items with
  | nil => simp [everyPosition]
  | cons p items ih =>
      rw [List.forall_mem_cons] at h
      have hfurther : (p.further.map Number.leadingValue).length = d - 2 := by
        rw [List.length_map, ← h.1]
        rfl
      rw [List.flatMap_cons, List.map_cons, ← ih h.2, PositionText.tokens, List.map_cons,
        List.map_cons, List.cons_append, List.cons_append, everyPosition, ← hfurther,
        List.drop_left]
      rfl

theorem length_flatMap_tokens {d : Nat} {items : List PositionText}
    (h : ∀ p ∈ items, p.tokens.length = d) :
    (items.flatMap PositionText.tokens).length = d * items.length := by
  induction items with
  | nil => rfl
  | cons p items ih =>
      rw [List.forall_mem_cons] at h
      rw [List.flatMap_cons, List.length_append, h.1, ih h.2, List.length_cons, Nat.mul_succ,
        Nat.add_comm]

theorem posListPositions_of_hasWords {list : PositionTexts} {l : Node} {inherited : Nat}
    (hdimension : dimension inherited l = list.dimension)
    (htokens : HasWords l (list.items.flatMap PositionText.tokens)) :
    posListPositions inherited l = .ok list.positions := by
  have hlengths : ∀ p ∈ list.items, p.tokens.length = list.dimension := list.length_tokens
  have hnumbers := numbers_of_hasWords htokens (List.forall_mem_flatMap.2 fun p hp t ht =>
    isWord_of_mem_tokens hp ht)
  unfold posListPositions
  dsimp only
  rw [hnumbers, hdimension, if_neg, List.map_flatMap, everyPosition_flatMap hlengths]
  · rfl
  · have hne : ((list.items.flatMap PositionText.tokens).map Number.leadingValue).isEmpty = false :=
      rfl
    rw [hne, List.length_map, length_flatMap_tokens hlengths, Nat.mul_mod_right]
    decide

/-! ## Lists of positions -/

theorem posPosition_of_hasWords {list : PositionTexts} {p : PositionText} (hp : p ∈ list.items)
    {m : Node} (h : HasWords m p.tokens) : posPosition m = .ok p.position := by
  unfold posPosition
  rw [numbers_of_hasWords h fun t ht => isWord_of_mem_tokens hp ht]
  rfl

theorem coordPosition_of_hasText {p : PositionText} {m x y : Node} (hx : m.child? "X" = some x)
    (hy : m.child? "Y" = some y) (htextx : HasText x p.x) (htexty : HasText y p.y) :
    coordPosition m = .ok p.position := by
  unfold coordPosition
  rw [hx, hy]
  dsimp only
  rw [trimmedText_of_hasText htextx, trimmedText_of_hasText htexty]
  rfl

/-- A tuple whose values start with the same numbers as the tokens of a position. -/
theorem tuplePosition_intercalate {m : Node} {c : Char} (hc : separator "cs" "," m = .singleton c)
    {p : PositionText} {values : List String} (hnot : ∀ v ∈ values, c ∉ v.toList)
    (hvalues : values.map Number.leadingValue = p.tokens.map Number.leadingValue) :
    tuplePosition m ((String.singleton c).intercalate values) = .ok p.position := by
  unfold tuplePosition tupleValues
  match values with
  | [] | [_] => simp [PositionText.tokens] at hvalues
  | x :: y :: further =>
      rw [hc, piecesAround_intercalate (List.cons_ne_nil x _) hnot]
      injection hvalues with hx hrest
      injection hrest with hy hrest
      dsimp only
      rw [hx, hy]
      rfl

theorem coordinatesPositions_of_tuples {list : PositionTexts} {m : Node}
    (h : List.Forall₂ (fun p tuple => tuplePosition m tuple = .ok p.position) list.items
      (tuples m)) : coordinatesPositions m = .ok list.positions := by
  rw [coordinatesPositions, mapM_eq_ok_map h]
  rfl

/-- Tokens with commas between them are one word. -/
theorem isWord_intercalate {list : PositionTexts} {p : PositionText} (hp : p ∈ list.items) :
    IsWord (",".intercalate p.tokens).toList := by
  rw [String.toList_intercalate]
  refine ⟨?_, fun c hc => ?_⟩
  · simp [PositionText.tokens, List.intercalate_cons_cons]
  · rcases Chars.mem_or_exists_of_mem_intercalate hc with hcomma | ⟨_, hmem, hc⟩
    · obtain rfl := List.mem_singleton.1 hcomma
      decide
    · obtain ⟨t, ht, rfl⟩ := List.mem_map.1 hmem
      exact (isWord_of_mem_tokens hp ht).notBlank c hc

theorem tuples_of_hasWords {list : PositionTexts} {m : Node} (hts : separator "ts" " " m = " ")
    (htuples : HasWords m (list.items.map fun p => ",".intercalate p.tokens)) :
    tuples m = list.items.map fun p => ",".intercalate p.tokens := by
  have hblank : Text.trim (separator "ts" " " m) = "" := by
    rw [hts]
    decide
  unfold tuples
  dsimp only
  rw [if_pos hblank, words_of_hasWords htuples]
  exact List.forall_mem_map.2 fun p hp => isWord_intercalate hp

theorem coordinatesPositions_of_words {list : PositionTexts} {m : Node}
    (hts : separator "ts" " " m = " ") (hcs : separator "cs" "," m = ",")
    (htuples : HasWords m (list.items.map fun p => ",".intercalate p.tokens)) :
    coordinatesPositions m = .ok list.positions := by
  refine coordinatesPositions_of_tuples ?_
  rw [tuples_of_hasWords hts htuples, List.forall₂_map_right_iff, List.forall₂_same]
  exact fun p hp => tuplePosition_intercalate (c := ',') hcs
    (fun t ht => (list.isToken p hp t ht).noComma) rfl

/-- A separator occurs in no value of a tuple. -/
theorem IsSeparator.notMem_value {list : PositionTexts} {c : Char} (h : IsSeparator c list)
    {p : PositionText} (hp : p ∈ list.items) {values : List String}
    (htokens : values.map Text.trim = p.tokens) {v : String} (hv : v ∈ values) : c ∉ v.toList := by
  have htoken : Text.trim v ∈ p.tokens := by
    rw [← htokens]
    exact List.mem_map_of_mem hv
  -- the separator is not blank, so trimming would leave it in the token
  intro hmem
  rw [← Chars.mem_trim h.notBlank, ← Text.toList_trim] at hmem
  exact h.notMem p hp _ htoken hmem

theorem exists_values_of_isTuple {list : PositionTexts} {p : PositionText} (hp : p ∈ list.items)
    {cs : Char} (hcs : IsSeparator cs list) {tuple : String} (h : IsTuple cs p.tokens tuple) :
    ∃ values, Text.trim tuple = (String.singleton cs).intercalate values ∧
      (∀ v ∈ values, cs ∉ v.toList) ∧
      values.map Number.leadingValue = p.tokens.map Number.leadingValue := by
  obtain ⟨values, htuple, htokens⟩ := h
  refine ⟨values, htuple, fun v hv => hcs.notMem_value hp htokens hv, ?_⟩
  rw [← htokens, List.map_map]
  refine List.map_congr_left fun v _ => ?_
  rw [Function.comp_apply, Number.leadingValue_trim]

/-- A separator of tuples occurs in no tuple. -/
theorem notMem_of_isTuple {list : PositionTexts} {p : PositionText} (hp : p ∈ list.items)
    {ts cs : Char} (hts : IsSeparator ts list) (hne : ts ≠ cs) {tuple : String}
    (h : IsTuple cs p.tokens tuple) : ts ∉ tuple.toList := by
  obtain ⟨values, htuple, htokens⟩ := h
  intro hmem
  rw [← Chars.mem_trim hts.notBlank, ← Text.toList_trim, htuple, String.toList_intercalate,
    String.toList_singleton] at hmem
  rcases Chars.mem_or_exists_of_mem_intercalate hmem with hsep | ⟨_, hvalue, hmem⟩
  · exact hne (List.mem_singleton.1 hsep)
  · obtain ⟨v, hv, rfl⟩ := List.mem_map.1 hvalue
    exact hts.notMem_value hp htokens hv hmem

theorem trim_ne_empty_of_isTuple {p : PositionText} {cs : Char} {tuple : String}
    (h : IsTuple cs p.tokens tuple) : Text.trim tuple ≠ "" := by
  obtain ⟨values, htuple, htokens⟩ := h
  match values with
  | [] | [_] => simp [PositionText.tokens] at htokens
  | x :: y :: further =>
      rw [htuple, String.intercalate_cons_cons]
      intro h
      have := congrArg String.length h
      simp at this

theorem trim_singleton_ne_empty {c : Char} (hc : Chars.isBlank c = false) :
    Text.trim (String.singleton c) ≠ "" := by
  have hmem : c ∈ Chars.trim (String.singleton c).toList := by
    rw [Chars.mem_trim hc, String.toList_singleton]
    exact List.mem_singleton_self c
  rw [← Text.toList_trim] at hmem
  intro h
  rw [h] at hmem
  cases hmem

theorem tuples_of_separated {list : PositionTexts} {m : Node} {ts cs : Char} {texts : List String}
    (hts : separator "ts" " " m = String.singleton ts) (hseparator : IsSeparator ts list)
    (hne : ts ≠ cs) (htext : HasText m ((String.singleton ts).intercalate texts))
    (htuples : List.Forall₂ (fun p tuple => IsTuple cs p.tokens tuple) list.items texts) :
    tuples m = texts.map Text.trim := by
  have htuple : ∀ tuple ∈ texts, ∃ p ∈ list.items, IsTuple cs p.tokens tuple := fun tuple hmem =>
    exists_mem_of_forall₂ htuples hmem
  have hnonempty : texts ≠ [] := ne_nil_of_forall₂_items htuples
  have hnot : ∀ tuple ∈ texts, ts ∉ tuple.toList := fun tuple hmem => by
    obtain ⟨p, hp, h⟩ := htuple tuple hmem
    exact notMem_of_isTuple hp hseparator hne h
  unfold tuples
  dsimp only
  rw [hts, if_neg (trim_singleton_ne_empty hseparator.notBlank), trimmedText_of_hasText htext,
    piecesAround_intercalate hnonempty hnot, List.filter_eq_self, List.forall_mem_map]
  intro tuple hmem
  obtain ⟨p, -, h⟩ := htuple tuple hmem
  exact bne_iff_ne.2 (trim_ne_empty_of_isTuple h)

theorem coordinatesPositions_of_separated {list : PositionTexts} {m : Node} {ts cs : Char}
    {texts : List String} (hts : separator "ts" " " m = String.singleton ts)
    (hcs : separator "cs" "," m = String.singleton cs)
    (hseparators : IsSeparator ts list ∧ IsSeparator cs list ∧ ts ≠ cs)
    (htext : HasText m ((String.singleton ts).intercalate texts))
    (htuples : List.Forall₂ (fun p tuple => IsTuple cs p.tokens tuple) list.items texts) :
    coordinatesPositions m = .ok list.positions := by
  obtain ⟨hseparator, hinner, hne⟩ := hseparators
  refine coordinatesPositions_of_tuples ?_
  rw [tuples_of_separated hts hseparator hne htext htuples, List.forall₂_map_right_iff]
  refine forall₂_imp_of_mem (fun p hp tuple h => ?_) htuples
  obtain ⟨values, htuple, hnot, hvalues⟩ := exists_values_of_isTuple hp hinner h
  rw [htuple]
  exact tuplePosition_intercalate hcs hnot hvalues

/-! ## Places -/

/-- The positions at a place are those of the list that is written there. -/
theorem positions_of_isWrittenAt {list : PositionTexts} {n place : Node}
    (h : list.IsWrittenAt n place) : positions (dimension 2 n) place = .ok list.positions := by
  cases h with
  | posList hlist hdimension hinherited htokens =>
      rw [positions_of_posList hlist]
      refine posListPositions_of_hasWords ?_ htokens
      rw [dimension_of_declaresDimension hdimension (two_le_dimension list),
        dimension_inherited hinherited (two_le_dimension list)]
  | pos hother hpos =>
      rw [positions_of_pos hother (ne_nil_of_forall₂_items hpos)]
      exact mapM_eq_ok_map (forall₂_imp_of_mem (fun p hp m h => posPosition_of_hasWords hp h) hpos)
  | coordinates hother hcoordinates hts hcs htuples =>
      rw [positions_of_coordinates hother hcoordinates]
      exact coordinatesPositions_of_words hts hcs htuples
  | separated hother hcoordinates hts hcs hseparators htext htuples =>
      rw [positions_of_coordinates hother hcoordinates]
      exact coordinatesPositions_of_separated hts hcs hseparators htext htuples
  | coord hother hcoords =>
      rw [positions_of_coord hother (ne_nil_of_forall₂_items hcoords)]
      exact mapM_eq_ok_map <| hcoords.imp fun p m ⟨x, y, hx, hy, htextx, htexty⟩ =>
        coordPosition_of_hasText hx hy htextx htexty

end FilterEncoding.Gml
