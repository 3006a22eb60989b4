import FilterEncoding.Proofs.Expression.Expressing
import FilterEncoding.Proofs.Like.ShortestMatch
import FilterEncoding.Proofs.Like.Tokens
import FilterEncoding.Proofs.Reading.Literal

/-!
# Patterns in the Mapserver dialect

A pattern is written as a regular expression between slashes.  Escape characters are replaced by
backslashes, and every other character that is no metacharacter is written as it is, also where it
is an operator of regular expressions.

* `Mapserver.decodes_patternChars` — the expression that the slashes say.
* `Mapserver.follows_tokens` — how the parts of the expression follow the items of the pattern.
* `Mapserver.keeps_of_matches_iff` — where the same texts are accepted, no character is an operator.
* `Mapserver.compile_like_accepts_iff` — the statement about expressions.
-/

namespace FilterEncoding

open FilterEncoding.Geometry (Engine)
open Like (Item IsCut IsWithinLine Reads SameUpTo Token fixed items tokens)

namespace Mapserver

open Reading (Decodes literal?)
open Regex (Part Symbol anchored itemChars itemPart itemSymbols operators parts? push readWith?
  symbolsWith? width)

variable {m : Metacharacters} {cs : List Char}

/-! ## Writing -/

/-- The characters between the slashes for a token. -/
def tokenChars (m : Metacharacters) : Token → List Char
  | .plain c => patternChar m c
  | .escaped d => ['\\', d]
  | .loneEscape => ['\\']

theorem patternChars_eq_flatMap_tokens (m : Metacharacters) (cs : List Char) :
    patternChars m cs = (tokens m.escape cs).flatMap (tokenChars m) := by
  fun_induction tokens m.escape cs with
  | case1 => rfl
  | case2 => rw [patternChars, if_pos rfl]; rfl
  | case3 c hc => rw [patternChars, if_neg hc, List.flatMap_singleton]; rfl
  | case4 d cs ih => rw [patternChars, if_pos rfl, ih]; rfl
  | case5 c d cs hc ih => rw [patternChars, if_neg hc, ih]; rfl

/-- What two characters between the slashes stand for together: a slash has a backslash in
front. -/
def pair? (c d : Char) : Option Char :=
  if c = '\\' ∧ d = '/' then some '/' else none

/-- The characters of the expression for a token. -/
def saidChars (m : Metacharacters) : Token → List Char
  | .plain c => itemChars (fun c => [c]) (.ofChar m c)
  | .escaped d => if d = '/' then ['/'] else ['\\', d]
  | .loneEscape => []

/-- The expression that the slashes say. -/
def said (m : Metacharacters) (cs : List Char) : String :=
  "^" ++ String.ofList ((tokens m.escape cs).flatMap (saidChars m)) ++ "$"

theorem decodes_char {c : Char} (hslash : c ≠ '/') (hbackslash : c ≠ '\\') :
    Decodes pair? '/' [c] [c] :=
  Reading.decodes_char hslash fun _ => if_neg fun h => hbackslash h.1

theorem decodes_slash : Decodes pair? '/' ['\\', '/'] ['/'] :=
  Reading.decodes_pair rfl

theorem decodes_patternChar (hm : m.Distinct) {c : Char} (hc : c ≠ '\\') :
    Decodes pair? '/' (patternChar m c) (itemChars (fun c => [c]) (.ofChar m c)) := by
  have hany : Decodes pair? '/' ['.'] ['.'] := decodes_char (by decide) (by decide)
  by_cases hwildcard : c = m.wildcard
  · rw [hwildcard, Item.ofChar_wildcard, patternChar, if_neg hm.wildcard_ne_single, if_pos rfl]
    exact hany.append (decodes_char (by decide) (by decide))
  · by_cases hsingle : c = m.single
    · rw [hsingle, Item.ofChar_single hm, patternChar, if_pos rfl]
      exact hany
    · rw [Item.ofChar_of_ne hwildcard hsingle, patternChar, if_neg hsingle, if_neg hwildcard]
      split
      · next hslash =>
        subst hslash
        exact decodes_slash
      · next hslash => exact decodes_char hslash hc

/-- Whether a token has a character, and one other than a backslash. -/
def IsOrdinary : Token → Prop
  | .plain c => c ≠ '\\'
  | .escaped d => d ≠ '\\'
  | .loneEscape => False

theorem isOrdinary_of_mem_tokens (hlone : .loneEscape ∉ tokens m.escape cs) (hcs : '\\' ∉ cs) :
    ∀ t ∈ tokens m.escape cs, IsOrdinary t := by
  have hne {t : Token} {c : Char} (ht : t ∈ tokens m.escape cs) (hc : c ∈ t.chars m.escape) :
      c ≠ '\\' := fun hbackslash => hcs (hbackslash ▸ Like.mem_of_mem_tokens ht hc)
  intro t ht
  cases t with
  | plain c => exact hne ht (List.mem_singleton_self c)
  | escaped d => exact hne ht (List.mem_cons_of_mem _ (List.mem_singleton_self d))
  | loneEscape => exact hlone ht

theorem decodes_tokenChars (hm : m.Distinct) {t : Token} (ht : IsOrdinary t) :
    Decodes pair? '/' (tokenChars m t) (saidChars m t) := by
  cases t with
  | plain c => exact decodes_patternChar hm ht
  | escaped d =>
      rw [tokenChars, saidChars]
      split
      · next hslash =>
        subst hslash
        exact decodes_slash
      · next hslash =>
        exact (decodes_char hslash ht).cons (by decide) (if_neg fun h => hslash h.2)
  | loneEscape => exact absurd ht id

theorem decodes_regex (hm : m.Distinct) {pattern : String} (hpattern : pattern ≠ "")
    (h : ∀ t ∈ tokens m.escape pattern.toList, IsOrdinary t) :
    Decodes pair? '/' (regex m pattern).toList (said m pattern.toList).toList := by
  have hbody : Decodes pair? '/' (patternChars m pattern.toList)
      ((tokens m.escape pattern.toList).flatMap (saidChars m)) := by
    rw [patternChars_eq_flatMap_tokens]
    exact Decodes.flatMap fun t ht => decodes_tokenChars hm (h t ht)
  have hstart : Decodes pair? '/' ['^'] ['^'] := decodes_char (by decide) (by decide)
  have hend : Decodes pair? '/' ['$'] ['$'] := decodes_char (by decide) (by decide)
  rw [regex, if_neg hpattern, said]
  simp only [String.toList_append, String.toList_ofList]
  exact (hstart.append hbody).append hend

/-! ## Reading -/

variable {self : Char → Bool}

/-- The symbols of the expression for a token. -/
def tokenSymbols (m : Metacharacters) : Token → List Symbol
  | .plain c => (itemChars (fun c => [c]) (.ofChar m c)).map .ofChar
  | .escaped d => [.literal d]
  | .loneEscape => []

/-- The symbols of the expression for some tokens, with its anchors. -/
def anchoredSymbols (m : Metacharacters) (ts : List Token) : List Symbol :=
  .operator '^' :: (ts.flatMap (tokenSymbols m) ++ [.operator '$'])

/-- Whether the character of a token is read where it stands behind a backslash. -/
def isReadBehind (self : Char → Bool) : Token → Bool
  | .escaped d => d = '/' || self d
  | _ => true

theorem symbolsWith?_append {front : List Char} (h : '\\' ∉ front) (rest : List Char) :
    symbolsWith? self (front ++ rest) =
      (symbolsWith? self rest).map (front.map Symbol.ofChar ++ ·) := by
  induction front with
  | nil => simp
  | cons c front ih =>
      obtain ⟨hc, hfront⟩ := not_or.1 (mt List.mem_cons.2 h)
      rw [List.cons_append, Regex.symbolsWith?_cons_of_ne (Ne.symm hc), ih hfront, Option.map_map]
      rfl

theorem symbolsWith?_saidChars {t : Token} (ht : IsOrdinary t) (rest : List Char) :
    symbolsWith? self (saidChars m t ++ rest) =
      if isReadBehind self t then (symbolsWith? self rest).map (tokenSymbols m t ++ ·)
      else none := by
  cases t with
  | plain c =>
      refine symbolsWith?_append (fun hbackslash => ?_) rest
      rw [saidChars, Item.ofChar] at hbackslash
      split at hbackslash
      · simp [itemChars] at hbackslash
      · split at hbackslash
        · simp [itemChars] at hbackslash
        · exact ht (List.mem_singleton.1 hbackslash).symm
  | escaped d =>
      rw [saidChars, isReadBehind, tokenSymbols]
      split
      · next hslash =>
        subst hslash
        exact Regex.symbolsWith?_cons_of_ne (by decide) rest
      · next hslash =>
        rw [decide_eq_false hslash, Bool.false_or]
        exact Regex.symbolsWith?_backslash d rest
  | loneEscape => exact absurd ht id

/-- The symbols of an expression, if each escaped character is read behind its backslash. -/
theorem symbolsWith?_tokens {ts : List Token} (h : ∀ t ∈ ts, IsOrdinary t) :
    symbolsWith? self (ts.flatMap (saidChars m) ++ ['$']) =
      if ts.all (isReadBehind self) then
        some (ts.flatMap (tokenSymbols m) ++ [.operator '$'])
      else none := by
  induction ts with
  | nil => rfl
  | cons t ts ih =>
      obtain ⟨ht, hts⟩ := List.forall_mem_cons.1 h
      rw [List.flatMap_cons, List.append_assoc, symbolsWith?_saidChars ht, ih hts, List.all_cons,
        List.flatMap_cons]
      cases isReadBehind self t <;> cases ts.all (isReadBehind self) <;> simp

/-- The parts of an expression come from the symbols of its tokens. -/
theorem readWith?_said (h : ∀ t ∈ tokens m.escape cs, IsOrdinary t) :
    readWith? self (said m cs) =
      if (tokens m.escape cs).all (isReadBehind self) then
        (parts? (anchoredSymbols m (tokens m.escape cs))).map (⟨false, ·⟩)
      else none := by
  have htext : (said m cs).toList =
      '^' :: ((tokens m.escape cs).flatMap (saidChars m) ++ ['$']) := by
    simp [said]
  have hparts : ((symbolsWith? self ('^' :: ((tokens m.escape cs).flatMap (saidChars m) ++
      ['$']))).bind parts?).map (⟨false, ·⟩) =
      if (tokens m.escape cs).all (isReadBehind self) then
        (parts? (anchoredSymbols m (tokens m.escape cs))).map (Regex.mk false)
      else none := by
    rw [Regex.symbolsWith?_cons_of_ne (by decide), symbolsWith?_tokens h]
    split <;> rfl
  simp only [readWith?, htext]
  exact hparts

/-! ## Parts and items -/

/-- Whether a plain character has the same meaning in the expression: it is a metacharacter, or no
operator. -/
def Keeps (m : Metacharacters) (c : Char) : Prop :=
  c = m.wildcard ∨ c = m.single ∨ c ∉ operators

instance (m : Metacharacters) (c : Char) : Decidable (Keeps m c) := by
  unfold Keeps
  infer_instance

theorem map_ofChar_of_keeps (hm : m.Distinct) {c : Char} (h : Keeps m c) :
    tokenSymbols m (.plain c) = itemSymbols (.ofChar m c) := by
  rw [tokenSymbols]
  by_cases hwildcard : c = m.wildcard
  · rw [hwildcard, Item.ofChar_wildcard]
    rfl
  · by_cases hsingle : c = m.single
    · rw [hsingle, Item.ofChar_single hm]
      rfl
    · have hoperator := (h.resolve_left hwildcard).resolve_left hsingle
      rw [Item.ofChar_of_ne hwildcard hsingle]
      exact congrArg ([·]) (if_neg hoperator)

/-- How the parts of an expression go on with some tokens: they need fewer characters than the items
of the tokens, or they are these items, but that full stops may stand for any character. -/
def Follows (m : Metacharacters) (ts : List Token) (parts parts' : List Part) : Prop :=
  width parts' < width parts + (fixed (ts.flatMap (Token.items m))).length ∨
    ∃ loose, List.Forall₂ Item.Dots (ts.flatMap (Token.items m)) loose ∧
      parts' = (loose.map itemPart).reverse ++ parts ∧
      (ts.flatMap (Token.items m) = loose → ∀ c, .plain c ∈ ts → Keeps m c)

theorem Follows.width_le {ts : List Token} {parts parts' : List Part}
    (h : Follows m ts parts parts') :
    width parts' ≤ width parts + (fixed (ts.flatMap (Token.items m))).length := by
  rcases h with hlt | ⟨loose, hdots, rfl, -⟩
  · exact Nat.le_of_lt hlt
  · refine Nat.le_of_eq ?_
    rw [Regex.width_append, Regex.width_reverse, Regex.width_itemParts,
      ← Like.length_fixed_eq_of_dots hdots, Nat.add_comm]

theorem Follows.cons {t : Token} {ts : List Token} {parts mid parts' : List Part}
    (ht : Follows m [t] parts mid) (hts : Follows m ts mid parts') :
    Follows m (t :: ts) parts parts' := by
  have hlength : (fixed ((t :: ts).flatMap (Token.items m))).length =
      (fixed ([t].flatMap (Token.items m))).length +
        (fixed (ts.flatMap (Token.items m))).length := by
    rw [List.flatMap_cons, List.flatMap_singleton, fixed, List.filter_append, List.length_append]
    rfl
  have hle := ht.width_le
  have hle' := hts.width_le
  rcases ht with hlt | ⟨loose, hdots, rfl, hkeeps⟩
  · exact .inl (by omega)
  · rcases hts with hlt | ⟨loose', hdots', rfl, hkeeps'⟩
    · exact .inl (by omega)
    · rw [List.flatMap_singleton] at hdots hkeeps
      refine .inr ⟨loose ++ loose', ?_, by simp, fun heq c hc => ?_⟩
      · rw [List.flatMap_cons]
        exact List.rel_append hdots hdots'
      · rw [List.flatMap_cons] at heq
        obtain ⟨hhead, htail⟩ := List.append_inj heq hdots.length_eq
        rcases List.mem_cons.1 hc with rfl | hc
        · exact hkeeps hhead c (List.mem_singleton_self _)
        · exact hkeeps' htail c hc

/-- A character that is no metacharacter: an operator takes the place of its item. -/
theorem follows_char {c : Char} (hitem : Item.ofChar m c = .char c) {parts parts' : List Part}
    (h : push parts (.ofChar c) = some parts') : Follows m [.plain c] parts parts' := by
  have hone : (fixed ([Token.plain c].flatMap (Token.items m))).length = 1 := by
    rw [List.flatMap_singleton, Token.items, hitem]
    rfl
  unfold Follows
  rw [hone, List.flatMap_singleton, Token.items, hitem]
  rcases Regex.push_eq_some h with
    ⟨d, hliteral, rfl⟩ | ⟨hdot, rfl⟩ | ⟨-, rfl⟩ | ⟨-, rfl⟩ | ⟨-, a, rest, rfl, rfl⟩
  · unfold Symbol.ofChar at hliteral
    split at hliteral
    · cases hliteral
    · next hoperator =>
      cases hliteral
      refine .inr ⟨[.char c], .cons (.same _) .nil, rfl, fun _ d hd => ?_⟩
      cases List.mem_singleton.1 hd
      exact .inr (.inr hoperator)
  · unfold Symbol.ofChar at hdot
    split at hdot
    · cases hdot
      exact .inr ⟨[.one], .cons .dot .nil, rfl, fun heq => by cases heq⟩
    · cases hdot
  · exact .inl (by rw [Regex.width_cons]; exact Nat.lt_succ_of_le (Nat.le_of_eq (Nat.zero_add _)))
  · exact .inl (by rw [Regex.width_cons]; exact Nat.lt_succ_of_le (Nat.le_of_eq (Nat.zero_add _)))
  · refine .inl ?_
    rw [Regex.width_cons, Regex.width_cons]
    simp only [Part.width]
    omega

theorem follows_token (hm : m.Distinct) {t : Token} {parts parts' : List Part}
    (h : (tokenSymbols m t).foldlM push parts = some parts') : Follows m [t] parts parts' := by
  have hkept {t : Token} {item : Item} (hitems : t.items m = [item])
      (hsymbols : tokenSymbols m t = itemSymbols item)
      (hkeeps : ∀ c, .plain c ∈ [t] → Keeps m c)
      (h : (tokenSymbols m t).foldlM push parts = some parts') : Follows m [t] parts parts' := by
    rw [hsymbols, Regex.foldlM_push_itemSymbols] at h
    refine .inr ⟨[item], ?_, (Option.some.inj h).symm, fun _ => hkeeps⟩
    rw [List.flatMap_singleton, hitems]
    exact .cons (.same item) .nil
  cases t with
  | escaped d => exact hkept rfl rfl (by simp) h
  | loneEscape =>
      cases h
      exact .inr ⟨[], .nil, rfl, fun _ c hc => by simp at hc⟩
  | plain c =>
      have hplain (hkeeps : Keeps m c) : Follows m [.plain c] parts parts' :=
        hkept rfl (map_ofChar_of_keeps hm hkeeps) (fun d hd => by
          cases List.mem_singleton.1 hd
          exact hkeeps) h
      by_cases hwildcard : c = m.wildcard
      · exact hplain (.inl hwildcard)
      · by_cases hsingle : c = m.single
        · exact hplain (.inr (.inl hsingle))
        · have hitem := Item.ofChar_of_ne hwildcard hsingle
          refine follows_char hitem ?_
          rw [tokenSymbols, hitem] at h
          simpa [itemChars] using h

theorem follows_tokens (hm : m.Distinct) {ts : List Token} {parts parts' : List Part}
    (h : (ts.flatMap (tokenSymbols m)).foldlM push parts = some parts') :
    Follows m ts parts parts' := by
  induction ts generalizing parts with
  | nil =>
      cases h
      exact .inr ⟨[], .nil, rfl, fun _ c hc => by cases hc⟩
  | cons t ts ih =>
      rw [List.flatMap_cons, List.foldlM_append] at h
      obtain ⟨mid, hmid, hrest⟩ := Option.bind_eq_some_iff.1 h
      exact (follows_token hm hmid).cons (ih hrest)

/-! ## The same texts -/

variable {ts : List Token} {parts : List Part} {ignoreCase : Bool}

/-- The parts of an expression between its anchors. -/
theorem exists_of_parts? (h : parts? (anchoredSymbols m ts) = some parts) :
    ∃ mid, (ts.flatMap (tokenSymbols m)).foldlM push [.once .start] = some mid ∧
      parts = mid.reverse ++ [.once .finish] := by
  obtain ⟨all, hall, rfl⟩ := Option.map_eq_some_iff.1 h
  have hstart : push [] (.operator '^') = some [.once .start] := rfl
  rw [anchoredSymbols, List.foldlM_cons, hstart, Option.bind_eq_bind, Option.bind_some,
    List.foldlM_append] at hall
  obtain ⟨mid, hmid, hlast⟩ := Option.bind_eq_some_iff.1 hall
  have hfinish : push mid (.operator '$') = some (.once .finish :: mid) := by
    simp [push]
  rw [List.foldlM_cons, hfinish] at hlast
  cases hlast
  exact ⟨mid, hmid, List.reverse_cons⟩

/-- Where each plain character keeps its meaning, the parts are the items. -/
theorem parts?_of_keeps (hm : m.Distinct) (h : ∀ c, .plain c ∈ ts → Keeps m c) :
    parts? (anchoredSymbols m ts) = some (anchored (ts.flatMap (Token.items m))) := by
  have hsymbols : ts.flatMap (tokenSymbols m) =
      (ts.flatMap (Token.items m)).flatMap itemSymbols := by
    rw [List.flatMap_assoc]
    refine List.flatMap_congr fun t ht => ?_
    cases t with
    | plain c => rw [map_ofChar_of_keeps hm (h c ht), Token.items, List.flatMap_singleton]
    | escaped d => rfl
    | loneEscape => rfl
  rw [anchoredSymbols, hsymbols, Regex.parts?_anchored]

theorem not_sameUpTo_dot (ignoreCase : Bool) : ¬SameUpTo ignoreCase '.' 'z' := by
  rw [← Like.sameChar_iff]
  cases ignoreCase <;> decide +kernel

/-- Where the same texts are accepted, each plain character keeps its meaning: an operator leaves
the expression with shorter matches than the pattern has texts, and a full stop accepts other
characters. -/
theorem keeps_of_matches_iff (hm : m.Distinct)
    (hparts : parts? (anchoredSymbols m ts) = some parts)
    (h : ∀ text, Regex.Matches ⟨ignoreCase, parts⟩ text ↔
      IsCut (SameUpTo ignoreCase) IsWithinLine (ts.flatMap (Token.items m)) text) :
    ∀ c, .plain c ∈ ts → Keeps m c := by
  obtain ⟨mid, hmid, rfl⟩ := exists_of_parts? hparts
  have hsame : ∀ c, SameUpTo ignoreCase c c := fun c => by
    cases ignoreCase <;> rfl
  have hfree : IsWithinLine 'z' := by
    unfold IsWithinLine
    decide
  have hwidth : width (mid.reverse ++ [.once .finish]) = width mid := by
    rw [Regex.width_append, Regex.width_reverse]
    rfl
  -- The sample of the pattern has a match, and the shortest match is a text of the pattern.
  have hsample := (h _).2 (Like.isCut_sample hsame hfree (ts.flatMap (Token.items m)))
  obtain ⟨shortest, hshortest, hlength⟩ := hsample.exists_shortest
  have hle := Like.length_fixed_le_of_isCut ((h shortest).1 hshortest)
  rw [hlength, hwidth] at hle
  rcases follows_tokens hm hmid with hlt | ⟨loose, hdots, rfl, hkeeps⟩
  · have hstart : width [.once .start] = 0 := rfl
    omega
  · -- What is left are the items with other full stops, so that their sample is a match.
    have hanchored : ((loose.map itemPart).reverse ++ [Part.once .start]).reverse ++
        [.once .finish] = anchored loose := by
      simp [anchored]
    rw [hanchored] at h
    have hcut := (h _).1 (Regex.matches_anchored_iff.2 (Like.isCut_sample hsame hfree loose))
    exact hkeeps (Like.eq_of_isCut_sample (not_sameUpTo_dot ignoreCase) hdots hcut)

/-! ## Expressions -/

/-- The expression that is written for a pattern accepts the same texts as the one for matching in
the process exactly if no character of the pattern is an operator of regular expressions, other than
a metacharacter, and each escaped character stands for itself behind a backslash.  Which characters
do so is up to the engine; a slash does, since its backslash is one of the literal.  An expression
that uses more than anchors, full stops and repetitions of single characters has no reading here. -/
theorem compile_like_accepts_iff {o : LikeOptions} {pattern : String} (ho : o.Declares m)
    (hm : m.Distinct) (hpattern : pattern ≠ "") (hbackslash : '\\' ∉ pattern.toList)
    (hlone : .loneEscape ∉ tokens m.escape pattern.toList) (layer : Layer) (engine : Engine)
    (name : String) (ignoreCase : Bool) (self : Char → Bool) :
    ∃ items behind written expression, Reads m pattern.toList items ∧
      Dialect.mapserver.compile layer engine (.comparison .like (.property name)
          (.literal (some pattern) ignoreCase) (some o)) =
        .ok (some ("(\"[" ++ name ++ "]\" " ++ (if o.ignoreCase then "~*" else "=~") ++ " /" ++
          behind)) ∧
      literal? pair? '/' behind.toList = some (written.toList, ")".toList) ∧
      o.regex? pattern = some expression ∧
      Regex.read? expression = some ⟨o.ignoreCase, anchored items⟩ ∧
      (∀ text : String, Regex.Matches ⟨o.ignoreCase, anchored items⟩ text.toList ↔
        o.accepts? pattern text = some true) ∧
      ((∃ parts, readWith? self written = some ⟨false, parts⟩ ∧
          ∀ text : String, Regex.Matches ⟨o.ignoreCase, parts⟩ text.toList ↔
            o.accepts? pattern text = some true) ↔
        (∀ c, .plain c ∈ tokens m.escape pattern.toList → Keeps m c) ∧
          ∀ d, .escaped d ∈ tokens m.escape pattern.toList → d = '/' ∨ self d = true) := by
  have hmeta : o.metacharacters? = some m := LikeOptions.metacharacters?_eq_some_iff.2 ho
  have hordinary := isOrdinary_of_mem_tokens hlone hbackslash
  have haccepts (text : List Char) : IsCut (SameUpTo o.ignoreCase) IsWithinLine
      (items m pattern.toList) text ↔ o.accepts? pattern (String.ofList text) = some true := by
    rw [← Like.accepts_iff, LikeOptions.accepts?, hmeta, Option.map_some, Option.some.injEq,
      String.toList_ofList]
  refine ⟨items m pattern.toList, regex m pattern ++ "/)", said m pattern.toList,
    Like.regex o.ignoreCase (items m pattern.toList), Like.reads_items m _, ?_, ?_, ?_,
    Like.read?_regex _ _, fun text => ?_, ?_⟩
  · rw [Dialect.compile_eq_ok_some_iff,
      Language.compile_of_test? _ (Predicate.test?_like hmeta name pattern ignoreCase),
      ← String.append_assoc]
    rfl
  · rw [String.toList_append]
    exact (decodes_regex hm hpattern hordinary).closed fun _ _ => if_neg fun h => by simp at h
  · rw [LikeOptions.regex?, hmeta, Option.map_some]
  · rw [Regex.matches_anchored_iff, haccepts, String.ofList_toList]
  · rw [readWith?_said hordinary]
    constructor
    · rintro ⟨parts, hread, hsame⟩
      obtain ⟨hbehind, hread⟩ := Option.ite_none_right_eq_some.1 hread
      obtain ⟨parts', hparts, heq⟩ := Option.map_eq_some_iff.1 hread
      cases heq
      have hmatches (text : List Char) : Regex.Matches ⟨o.ignoreCase, parts⟩ text ↔
          IsCut (SameUpTo o.ignoreCase) IsWithinLine
            ((tokens m.escape pattern.toList).flatMap (Token.items m)) text := by
        rw [← Like.items_eq_flatMap_tokens, haccepts, ← hsame, String.toList_ofList]
      refine ⟨keeps_of_matches_iff hm hparts hmatches, fun d hd => ?_⟩
      simpa [isReadBehind] using List.all_eq_true.1 hbehind _ hd
    · rintro ⟨hkeeps, hescaped⟩
      have hbehind : (tokens m.escape pattern.toList).all (isReadBehind self) = true := by
        refine List.all_eq_true.2 fun t ht => ?_
        cases t with
        | plain c => rfl
        | escaped d => simpa [isReadBehind] using hescaped d ht
        | loneEscape => rfl
      refine ⟨anchored (items m pattern.toList), ?_, fun text => ?_⟩
      · rw [if_pos hbehind, Like.items_eq_flatMap_tokens]
        exact congrArg (Option.map _) (parts?_of_keeps hm hkeeps)
      · rw [Regex.matches_anchored_iff, haccepts, String.ofList_toList]

/-- A full stop that is no metacharacter accepts any character, where the expression for matching
in the process accepts a full stop alone. -/
theorem compile_like_accepts_iff_full_stop :
    LikeOptions.Declares ⟨"*", "#", "!", false⟩ ⟨'*', '#', '!'⟩ ∧
      Metacharacters.Distinct ⟨'*', '#', '!'⟩ ∧ '\\' ∉ "a.b".toList ∧
      .loneEscape ∉ tokens '!' "a.b".toList ∧
      Dialect.mapserver.compile (LayerSchema.toLayer { name := "roads" }) Engine.none
          (.comparison .like (.property "NAME") (.literal (some "a.b") false)
            (some ⟨"*", "#", "!", false⟩)) =
        .ok (some "(\"[NAME]\" =~ /^a.b$/)") ∧
      LikeOptions.regex? ⟨"*", "#", "!", false⟩ "a.b" = some "^a\\.b$" ∧
      readWith? (fun c => !c.isAlphanum) "^a.b$" =
        some ⟨false, anchored [.char 'a', .one, .char 'b']⟩ ∧
      Regex.Matches ⟨false, anchored [.char 'a', .one, .char 'b']⟩ "axb".toList ∧
      LikeOptions.accepts? ⟨"*", "#", "!", false⟩ "a.b" "axb" = some false ∧
      ¬∃ parts, readWith? (fun c => !c.isAlphanum) "^a.b$" = some ⟨false, parts⟩ ∧
        ∀ text : String, Regex.Matches ⟨false, parts⟩ text.toList ↔
          LikeOptions.accepts? ⟨"*", "#", "!", false⟩ "a.b" text = some true := by
  have ho : LikeOptions.Declares ⟨"*", "#", "!", false⟩ ⟨'*', '#', '!'⟩ := ⟨rfl, rfl, rfl⟩
  have hm : Metacharacters.Distinct ⟨'*', '#', '!'⟩ := ⟨by decide, by decide, by decide⟩
  obtain ⟨items, behind, written, expression, -, hcompile, hliteral, -, -, -, hsame⟩ :=
    compile_like_accepts_iff ho hm (show "a.b" ≠ "" by decide) (by decide) (by decide)
      (LayerSchema.toLayer { name := "roads" }) Engine.none "NAME" false fun c => !c.isAlphanum
  have hbehind : behind = "^a.b$/)" := by
    have htext : "(\"[NAME]\" =~ /" ++ "^a.b$/)" = "(\"[NAME]\" =~ /" ++ behind :=
      Option.some.inj (Except.ok.inj hcompile)
    exact ((String.append_right_inj _).1 htext).symm
  have hwritten : written = "^a.b$" := by
    subst hbehind
    exact String.toList_inj.1 (congrArg Prod.fst (Option.some.inj hliteral)).symm
  subst hwritten
  refine ⟨ho, hm, by decide, by decide, rfl, rfl, by decide +kernel, ?_, by decide +kernel, ?_⟩
  · rw [Regex.matches_anchored_iff, ← Like.accepts_iff]
    decide +kernel
  · exact fun h => absurd ((hsame.1 h).1 '.' (by decide)) (by decide)

end Mapserver

end FilterEncoding
