import FilterEncoding.Proofs.Sql.Draft

/-!
# Requests stay quoted in SQL

Read with the quoting rules of SQL, the text of an expression consists of words of the dialect, of
decimal numbers, and of quoted tokens; whatever else a request supplies lies inside the tokens.  A
quoted name or value decodes to what the request supplied, and the whole text stands in one pair of
parentheses.

* `SoundFragment` — the fragments that a draft is made of, for the parts of a request.
* `Quoted` — drafts whose texts are read as they are meant.
* `quoted_draft` — the drafts of all expressions are.
* `compile_quoted` — the statement about texts.
-/

namespace FilterEncoding.Sql

open FilterEncoding.Geometry (Engine)
open Reading

/-! ## Doubled characters -/

/-- Read two equal characters as one. -/
def undoubled (c : Char) : List Char → List Char
  | [] => []
  | [x] => [x]
  | x :: y :: cs => if x = c ∧ y = c then c :: undoubled c cs else x :: undoubled c (y :: cs)

theorem undoubled_cons_cons (c : Char) (cs : List Char) :
    undoubled c (c :: c :: cs) = c :: undoubled c cs := by
  rw [undoubled, if_pos ⟨rfl, rfl⟩]

theorem undoubled_cons_of_ne {c x : Char} (hx : x ≠ c) (cs : List Char) :
    undoubled c (x :: cs) = x :: undoubled c cs := by
  cases cs with
  | nil => rfl
  | cons y cs => rw [undoubled, if_neg fun h => hx h.1]

theorem undoubled_doubled (c : Char) (s : String) :
    undoubled c (doubled c s).toList = s.toList := by
  rw [doubled, String.toList_ofList]
  induction s.toList with
  | nil => rfl
  | cons x xs ih =>
      rw [List.flatMap_cons]
      by_cases hx : x = c
      · rw [if_pos hx, hx]
        exact (undoubled_cons_cons c _).trans (congrArg (c :: ·) ih)
      · rw [if_neg hx]
        exact (undoubled_cons_of_ne hx _).trans (congrArg (x :: ·) ih)

/-- A text in which the closing character is doubled. -/
theorem sealed_doubled_text {quote : Quote} (hguard : quote.guard = .doubled) (origin : Origin)
    (s : String) : Sealed quote (mark origin (doubled quote.closing s)) := by
  refine sealed_of_flatMap fun c _ => ?_
  by_cases hc : c = quote.closing
  · rw [if_pos hc]
    exact sealed_doubled hguard hc hc
  · rw [if_neg hc]
    exact sealed_singleton hc fun h => by rw [hguard] at h; cases h

/-! ## Patterns -/

theorem sealed_char (origin : Origin) {c : Char} (hc : c ≠ '\'') :
    Sealed stringQuote [(c, origin)] :=
  sealed_singleton hc fun h => by cases h

theorem sealed_escapedChar (origin : Origin) (c : Char) :
    Sealed stringQuote ((escapedChar c).map fun x => (x, origin)) := by
  unfold escapedChar
  split
  · exact sealed_doubled rfl rfl rfl
  · next hc => exact sealed_char origin hc

theorem sealed_patternChar (origin : Origin) (m : Metacharacters) (c : Char) :
    Sealed stringQuote ((patternChar m c).map fun x => (x, origin)) := by
  unfold patternChar
  split
  · exact sealed_char origin (by decide)
  · split
    · exact sealed_char origin (by decide)
    · split
      · exact sealed_doubled rfl rfl rfl
      · next hc =>
        split
        · exact (sealed_char origin (by decide)).append (sealed_char origin (by decide))
        · exact sealed_char origin hc

/-- A pattern does not lead out of its string, unless its escape character is a quote. -/
theorem sealed_patternChars (origin : Origin) {m : Metacharacters} (hm : m.escape ≠ '\'')
    (cs : List Char) :
    Sealed stringQuote ((patternChars m cs).map fun x => (x, origin)) := by
  have hescape : ∀ c, isEscape m c = true → c ≠ '\'' := by
    intro c hc
    simp only [isEscape, Bool.and_eq_true, decide_eq_true_eq] at hc
    exact hc.1.1 ▸ hm
  -- Every step writes whole characters or whole pairs, so that the body is sealed step by step.
  fun_induction patternChars m cs with
  | case1 => exact sealed_nil
  | case2 c hc => exact sealed_char origin (hescape c hc)
  | case3 c _ => exact sealed_patternChar origin m c
  | case4 c d cs hc ih =>
      rw [List.map_cons, List.map_append]
      exact (sealed_char origin (hescape c hc)).append ((sealed_escapedChar origin d).append ih)
  | case5 c d cs _ ih =>
      rw [List.map_append]
      exact (sealed_patternChar origin m c).append ih

/-! ## Fragments -/

/-- The fragments of a draft for given parts of a request. -/
inductive SoundFragment (origins : List Origin) : Fragment → Prop
  | words (text : String) (h : OpensNone quotes text) : SoundFragment origins (words text)
  | column (name : String) (h : .name name ∈ origins) : SoundFragment origins (columnDraft name)
  | value (isString : Bool) (v : String) (h : .value v ∈ origins)
      (hnumber : isString = false → Number.isDecimal v = true) :
      SoundFragment origins (valueDraft stringQuote isString v (doubled '\'' v) v)
  | pattern (m : Metacharacters) (pattern : String) (h : .pattern pattern ∈ origins)
      (hm : m.escape ≠ '\'') :
      SoundFragment origins (.token stringQuote (.pattern pattern)
        (String.ofList (patternChars m pattern.toList)))
  | escape (c : Char) (body : String) (h : .escape c ∈ origins)
      (hbody : Sealed stringQuote (mark (.escape c) body)) :
      SoundFragment origins (.token stringQuote (.escape c) body)

/-- What a reader may find in the text for a predicate: words of the dialect, decimal numbers, and
tokens that lie inside what the predicate supplies. -/
inductive SoundLexeme (s : LayerSchema) (p : Predicate) : Lexeme Origin → Prop
  | words (c : Char) : SoundLexeme s p (.bare (c, .dialect))
  | number (c : Char) (v : String) (hv : .value v ∈ p.origins s.idAttribute)
      (hnumber : Number.isDecimal v = true) (hc : c ∈ v.toList) :
      SoundLexeme s p (.bare (c, .value v))
  /-- A name that decodes to the name of an attribute. -/
  | column (name : String) (body : List (Char × Origin)) (hname : p.IsNamed s.idAttribute name)
      (hbody : ∀ b ∈ body, b.2 = .name name)
      (hdecode : undoubled '"' (body.map Prod.fst) = name.toList) :
      SoundLexeme s p (.token identifierQuote ('"', .dialect) body ('"', .dialect))
  /-- A string that decodes to a value. -/
  | value (v : String) (body : List (Char × Origin)) (hv : .value v ∈ p.origins s.idAttribute)
      (hbody : ∀ b ∈ body, b.2 = .value v)
      (hdecode : undoubled '\'' (body.map Prod.fst) = v.toList) :
      SoundLexeme s p (.token stringQuote ('\'', .dialect) body ('\'', .dialect))
  /-- A string that is the pattern of a comparison, or its escape character. -/
  | like (origin : Origin) (body : List (Char × Origin))
      (horigin : origin ∈ p.origins s.idAttribute)
      (hlike : (∃ pattern, origin = .pattern pattern) ∨ ∃ c, origin = .escape c)
      (hbody : ∀ b ∈ body, b.2 = origin) :
      SoundLexeme s p (.token stringQuote ('\'', .dialect) body ('\'', .dialect))

namespace SoundFragment

variable {origins : List Origin} {f : Fragment}

theorem mono {more : List Origin} (h : SoundFragment origins f) (hsubset : origins ⊆ more) :
    SoundFragment more f := by
  cases h with
  | words text h => exact .words text h
  | column name h => exact .column name (hsubset h)
  | value isString v h hnumber => exact .value isString v (hsubset h) hnumber
  | pattern m pattern h hm => exact .pattern m pattern (hsubset h) hm
  | escape c body h hbody => exact .escape c body (hsubset h) hbody

theorem legible (h : SoundFragment origins f) : f.Legible quotes := by
  cases h with
  | words text h => exact h
  | column name _ => exact ⟨rfl, fun _ => rfl, sealed_doubled_text rfl _ name⟩
  | value isString v _ hnumber =>
      cases isString with
      | true => exact ⟨rfl, fun _ => rfl, sealed_doubled_text rfl _ v⟩
      | false =>
          exact opensNone_of_isNumberChar (by decide) fun c hc =>
            Number.isNumberChar_of_isDecimal (hnumber rfl) hc
  | pattern m pattern _ hm =>
      refine ⟨rfl, fun _ => rfl, ?_⟩
      rw [mark, String.toList_ofList]
      exact sealed_patternChars _ hm pattern.toList
  | escape c body _ hbody => exact ⟨rfl, fun _ => rfl, hbody⟩

theorem sound_lexemes {s : LayerSchema} {p : Predicate}
    (h : SoundFragment (p.origins s.idAttribute) f) : ∀ l ∈ f.lexemes, SoundLexeme s p l := by
  intro l hl
  cases h with
  | words text _ =>
      obtain ⟨⟨c, origin⟩, hc, rfl⟩ := List.mem_map.1 hl
      cases snd_of_mem_mark hc
      exact .words c
  | column name hname =>
      cases List.mem_singleton.1 hl
      refine .column name _ (Predicate.isNamed_of_mem_origins hname)
        (fun b hb => snd_of_mem_mark hb) ?_
      rw [map_fst_mark, undoubled_doubled]
  | value isString v hv hnumber =>
      cases isString with
      | true =>
          cases List.mem_singleton.1 hl
          refine .value v _ hv (fun b hb => snd_of_mem_mark hb) ?_
          rw [map_fst_mark, undoubled_doubled]
      | false =>
          obtain ⟨⟨c, origin⟩, hc, rfl⟩ := List.mem_map.1 hl
          cases snd_of_mem_mark hc
          exact .number c v hv (hnumber rfl) (fst_of_mem_mark hc)
  | pattern m pattern horigin _ =>
      cases List.mem_singleton.1 hl
      exact .like _ _ horigin (.inl ⟨pattern, rfl⟩) fun b hb => snd_of_mem_mark hb
  | escape c body horigin _ =>
      cases List.mem_singleton.1 hl
      exact .like _ _ horigin (.inr ⟨c, rfl⟩) fun b hb => snd_of_mem_mark hb

end SoundFragment

/-! ## Drafts -/

/-- A draft whose text is read as it is meant, for given parts of a request. -/
structure Quoted (origins : List Origin) (fs : List Fragment) : Prop where
  sound : ∀ f ∈ fs, SoundFragment origins f
  separated : Separated fs
  enclosed : Enclosed (outside fs)

variable {origins : List Origin} {s : LayerSchema}

namespace Quoted

theorem mono {fs : List Fragment} {more : List Origin} (h : Quoted origins fs)
    (hsubset : origins ⊆ more) : Quoted more fs :=
  ⟨fun f hf => (h.sound f hf).mono hsubset, h.separated, h.enclosed⟩

/-- Parentheses around a draft. -/
theorem group {before after : String} {fs : List Fragment}
    (hsound : ∀ f ∈ fs, SoundFragment origins f)
    (hseparated : Separated (fs ++ [words (")" ++ after)])) (hnested : Nested (outside fs))
    (hbefore : Plain quotes before) (hafter : Plain quotes after) :
    Quoted origins (group before fs after) := by
  have hopen : OpensNone quotes "(" := by decide
  have hclose : OpensNone quotes ")" := by decide
  refine ⟨?_, hseparated, ?_⟩
  · intro f hf
    rw [Reading.group, List.mem_cons, List.mem_append, List.mem_singleton] at hf
    rcases hf with rfl | hf | rfl
    · exact .words _ (hbefore.1.append hopen)
    · exact hsound f hf
    · exact .words _ (hclose.append hafter.1)
  · rw [outside_group]
    exact ⟨before.toList, outside fs, after.toList, rfl, hbefore.2, hnested, hafter.2⟩

theorem groupOfAlternatives {drafts : List (List Fragment)}
    (h : ∀ fs ∈ drafts, Quoted origins fs) : Quoted origins (groupOfAlternatives drafts) := by
  refine group ?_ ?_ ?_ plain_empty plain_empty
  · exact forall_mem_alternatives (.words _ (by decide)) fun fs hfs => (h fs hfs).sound
  · exact (separated_alternatives fun fs hfs => (h fs hfs).separated).append trivial
  · exact nested_outside_alternatives fun fs hfs => (h fs hfs).enclosed.nested

theorem negate {operand : List Fragment} (h : Quoted origins operand) :
    Quoted origins ((draft s).negate operand) := by
  refine group ?_ (h.separated.append trivial) ?_ (by decide) (by decide)
  · exact List.forall_mem_cons.2 ⟨.words _ (by decide), h.sound⟩
  · rw [outside_bare_cons]
    exact Nested.append (by decide) h.enclosed.nested

theorem join {left right : List Fragment} (op : Connective) (hleft : Quoted origins left)
    (hright : Quoted origins right) : Quoted origins ((draft s).join op left right) := by
  refine group ?_ ?_ ?_ (by decide) (by decide)
  · have hkeyword : OpensNone quotes (" " ++ op.keyword ++ " ") := by cases op <;> decide
    exact List.forall_mem_append.2
      ⟨hleft.sound, List.forall_mem_cons.2 ⟨.words _ hkeyword, hright.sound⟩⟩
  · have hrest : Separated (words (" " ++ op.keyword ++ " ") :: right) := hright.separated
    exact (hleft.separated.append hrest).append trivial
  · rw [outside_append, outside_bare_cons]
    exact hleft.enclosed.nested.append
      (Nested.append (by cases op <;> decide) hright.enclosed.nested)

end Quoted

/-! ## Tests -/

/-- A number that is escaped all the same. -/
theorem escapedDraft_toLayer {isString : Bool} {v : String}
    (hnumber : isString = false → Number.isDecimal v = true) :
    escapedDraft s.toLayer isString v =
      valueDraft stringQuote isString v (doubled '\'' v) v := by
  cases isString with
  | true => rfl
  | false =>
      rw [escapedDraft, s.escapeSqlLiteral_toLayer, doubled_of_isDecimal (hnumber rfl)]

theorem nested_valueDraft {isString : Bool} {v : String}
    (hnumber : isString = false → Number.isDecimal v = true) :
    Nested (valueDraft stringQuote isString v (doubled '\'' v) v).outside := by
  cases isString with
  | true => exact Nested.nil
  | false =>
      exact (unparenthesized_of_isNumberChar fun c hc =>
        Number.isNumberChar_of_isDecimal (hnumber rfl) hc).nested

/-- A column is followed by words. -/
theorem separated_column (name : String) {text : String} {fs : List Fragment} (htext : text ≠ "")
    (h : Separated fs) : Separated (columnDraft name :: words text :: fs) :=
  ⟨fun _ => htext, h⟩

theorem separated_value {isString : Bool} {v text : String} {fs : List Fragment}
    (htext : text ≠ "") (h : Separated fs) :
    Separated (valueDraft stringQuote isString v (doubled '\'' v) v :: words text :: fs) := by
  cases isString with
  | true => exact ⟨fun _ => htext, h⟩
  | false => exact h

/-- The comparison of a column with a value. -/
theorem quoted_comparison {isString : Bool} {name op v before after : String}
    (hnumber : isString = false → Number.isDecimal v = true) (hop : op ≠ "")
    (hwords : OpensNone quotes op) (hnested : Nested op.toList) (hbefore : Plain quotes before)
    (hafter : Plain quotes after) :
    Quoted [.name name, .value v]
      (group before [columnDraft name, words op,
        valueDraft stringQuote isString v (doubled '\'' v) v] after) := by
  refine Quoted.group ?_ ?_ ?_ hbefore hafter
  · simp only [List.forall_mem_cons, List.not_mem_nil, false_implies, implies_true, and_true]
    exact ⟨.column name (by simp), .words op hwords, .value isString v (by simp) hnumber⟩
  · exact separated_column name hop (separated_value (closing_ne_empty after) trivial)
  · refine Nested.append Nested.nil (hnested.append ?_)
    exact (nested_valueDraft hnumber).append Nested.nil

theorem quoted_compareDraft (s : LayerSchema) (r : Relation) (name : String)
    (value : Option String) (ignoreCase : Bool) :
    Quoted [.name name, .value (value.getD "")]
      (compareDraft s.toLayer columnDraft r name value ignoreCase) := by
  unfold compareDraft
  rw [s.getD_map_escapeSqlLiteral]
  dsimp only
  generalize hstring : Dialect.sql.isString s.toLayer name value = isString
  have hnumber : isString = false → Number.isDecimal (value.getD "") = true := fun hnot =>
    Dialect.isNumber_getD_of_not_isString (hstring.trans hnot)
  split
  · next hlower =>
    -- `lower` is applied to strings only.
    have hisString : isString = true := by
      simp only [Bool.and_eq_true] at hlower
      exact hlower.1.1.2
    have hnested : Nested ("lower(" ++ ") = lower(" ++ ") ").toList := by decide
    rw [hisString]
    refine Quoted.group ?_ ?_ hnested (by decide) (by decide)
    · simp only [List.forall_mem_cons, List.not_mem_nil, false_implies, implies_true, and_true]
      exact ⟨.words _ (by decide), .column name (by simp), .words _ (by decide),
        .value true _ (by simp) (fun h => by cases h), .words _ (by decide)⟩
    · exact separated_column name (by decide) (separated_value (by decide) trivial)
  · exact quoted_comparison hnumber (by cases r <;> decide) (by cases r <;> decide)
      (by cases r <;> decide) (by decide) (by decide)

theorem quoted_betweenDraft (s : LayerSchema) (name lower upper : String) :
    Quoted [.name name, .value lower, .value upper]
      (betweenDraft s.toLayer columnDraft name lower upper) := by
  unfold betweenDraft
  dsimp only
  generalize hstring : Dialect.sql.isStringRange s.toLayer name lower upper = isString
  have hnumbers : isString = false →
      Number.isDecimal lower = true ∧ Number.isDecimal upper = true := fun hnot =>
    Dialect.isNumber_of_not_isStringRange (hstring.trans hnot)
  rw [escapedDraft_toLayer fun h => (hnumbers h).1, escapedDraft_toLayer fun h => (hnumbers h).2]
  refine Quoted.group ?_ ?_ ?_ (by decide) (by decide)
  · simp only [List.forall_mem_cons, List.not_mem_nil, false_implies, implies_true, and_true]
    exact ⟨.column name (by simp), .words _ (by decide),
      .value isString lower (by simp) fun h => (hnumbers h).1, .words _ (by decide),
      .column name (by simp), .words _ (by decide),
      .value isString upper (by simp) fun h => (hnumbers h).2⟩
  · exact separated_column name (by decide) (separated_value (by decide)
      (separated_column name (by decide) (separated_value (by decide) trivial)))
  · refine nested_outside ?_
    simp only [List.forall_mem_cons, List.not_mem_nil, false_implies, implies_true, and_true]
    exact ⟨Nested.nil, by decide, nested_valueDraft fun h => (hnumbers h).1, by decide,
      Nested.nil, by decide, nested_valueDraft fun h => (hnumbers h).2⟩

theorem sound_escapeDraft {origins : List Origin} {connection : Connection} {c : Char}
    (hc : c ≠ '\'') (horigin : .escape c ∈ origins) :
    ∀ f ∈ escapeDraft connection c, SoundFragment origins f := by
  unfold escapeDraft
  split
  · exact List.forall_mem_nil _
  · split
    · refine List.forall_mem_cons.2 ⟨.words _ ?_, List.forall_mem_singleton.2
        (.escape c _ horigin (sealed_of_not_mem (by decide) (by decide) _))⟩
      split <;> decide
    · refine List.forall_mem_cons.2 ⟨.words _ (by decide), List.forall_mem_singleton.2
        (.escape c _ horigin (sealed_of_not_mem (by decide) ?_ _))⟩
      rw [String.toList_singleton, List.mem_singleton]
      exact Ne.symm hc

theorem separated_escapeDraft (connection : Connection) (c : Char) {text : String}
    (htext : text ≠ "") :
    StartsBare (escapeDraft connection c ++ [words text]) ∧
      Separated (escapeDraft connection c ++ [words text]) := by
  unfold escapeDraft
  split
  · exact ⟨htext, trivial⟩
  · split
    · refine ⟨?_, fun _ => htext, trivial⟩
      show (if connection = .postGis then " escape E" else " escape ") ≠ ""
      split <;> decide
    · refine ⟨?_, fun _ => htext, trivial⟩
      exact (by decide : " escape " ≠ "")

theorem nested_escapeDraft (connection : Connection) (c : Char) :
    Nested (outside (escapeDraft connection c)) := by
  unfold escapeDraft
  split
  · exact Nested.nil
  · split
    · split
      · exact (by decide : Nested " escape E".toList)
      · exact (by decide : Nested " escape ".toList)
    · exact (by decide : Nested " escape ".toList)

theorem opensNone_likeOperator (connection : Connection) (ignoreCase : Bool) :
    likeOperator connection ignoreCase ≠ "" ∧
      OpensNone quotes (likeOperator connection ignoreCase) ∧
      Nested (likeOperator connection ignoreCase).toList := by
  cases connection <;> cases ignoreCase <;> decide

theorem quoted_likeDraft {s : LayerSchema} {name pattern : String} {m : Metacharacters}
    {ignoreCase : Bool} {fs : List Fragment}
    (h : likeDraft s.toLayer columnDraft name pattern m ignoreCase = .ok fs) :
    Quoted [.name name, .pattern pattern, .escape m.escape] fs := by
  unfold likeDraft at h
  split at h
  · cases h
  · next hescape =>
    -- The operator stands between the column and the pattern, so that neither token can be taken
    -- for the continuation of the other.
    cases h
    obtain ⟨hne, hwords, hnested⟩ := opensNone_likeOperator s.connection ignoreCase
    refine Quoted.group ?_ ?_ ?_ (by decide) (by decide)
    · simp only [List.forall_mem_cons]
      exact ⟨.column name (by simp), .words _ hwords, .pattern m pattern (by simp) hescape,
        sound_escapeDraft hescape (by simp)⟩
    · have hclause := separated_escapeDraft s.connection m.escape (closing_ne_empty " ")
      exact separated_column name hne ⟨fun _ => hclause.1, hclause.2⟩
    · exact hnested.append (nested_escapeDraft s.connection m.escape)

theorem quoted_compareIdDraft (s : LayerSchema) (column : String) {isString : Bool} {id : String}
    (h : isString = false → Number.isDecimal id = true) :
    Quoted [.name column, .value id]
      (compareIdDraft s.toLayer columnDraft column isString id) := by
  unfold compareIdDraft
  rw [escapedDraft_toLayer h]
  split
  · next hcast =>
    have hisString : isString = true := (Bool.and_eq_true_iff.1 hcast).1
    have hnested : Nested ("CAST(" ++ " AS CHARACTER(255)) = ").toList := by decide
    rw [hisString]
    refine Quoted.group ?_ ?_ hnested (by decide) (by decide)
    · simp only [List.forall_mem_cons, List.not_mem_nil, false_implies, implies_true, and_true]
      exact ⟨.words _ (by decide), .column column (by simp), .words _ (by decide),
        .value true _ (by simp) (fun h => by cases h)⟩
    · exact separated_column column (by decide) (separated_value (by decide) trivial)
  · exact quoted_comparison h (by decide) (by decide) (by decide) (by decide) (by decide)

theorem quoted_featureIdsDraft {s : LayerSchema} {tokens : List String} {fs : List Fragment}
    (h : featureIdsDraft .sql s.toLayer (compareIdDraft s.toLayer columnDraft) tokens = .ok fs) :
    Quoted ((Test.featureIds tokens).origins s.idAttribute) fs := by
  obtain ⟨column, isString, hcolumn, hnumbers, rfl⟩ := exists_of_featureIdsDraft_eq_ok h
  rw [s.idAttribute_toLayer] at hcolumn
  refine Quoted.groupOfAlternatives fun fs hfs => ?_
  obtain ⟨id, hid, rfl⟩ := List.mem_map.1 hfs
  refine (quoted_compareIdDraft s column fun hnot => hnumbers hnot id hid).mono ?_
  rw [Test.origins, hcolumn]
  refine List.cons_subset.2 ⟨List.mem_cons_self, List.cons_subset.2 ⟨?_, List.nil_subset _⟩⟩
  exact List.mem_append_right _ (List.mem_map_of_mem hid)

theorem quoted_testDraft {s : LayerSchema} {test : Test} {fs : List Fragment}
    (h : testDraft s.toLayer columnDraft test = .ok fs) :
    Quoted (test.origins s.idAttribute) fs := by
  cases test with
  | relation r name value ignoreCase =>
      cases h
      exact quoted_compareDraft s r name value ignoreCase
  | between name lower upper =>
      cases h
      exact quoted_betweenDraft s name lower upper
  | like name pattern m ignoreCase => exact quoted_likeDraft h
  | featureIds tokens => exact quoted_featureIdsDraft h
  | inBox rectangle crs => cases h
  | toShape op shape crs distance => cases h

/-- The draft of every expression is read as it is meant. -/
theorem quoted_draft {s : LayerSchema} {p : Predicate} {fs : List Fragment}
    (h : (draft s).compile p = .ok fs) : Quoted (p.origins s.idAttribute) fs := by
  refine Language.compile_induction (draft s)
    (fun p fs => Quoted (p.origins s.idAttribute) fs) ?_ ?_ ?_ ?_ ?_ ?_ h
  · intro leaf test fs hleaf htest
    rw [Predicate.origins, Predicate.tests_of_test? hleaf, List.flatMap_singleton]
    exact quoted_testDraft htest
  · exact fun operand fs hoperand => hoperand.negate
  · exact fun left right fs hleft => hleft.negate
  · -- Each operand is quoted for its own parts of the request, which are among those of both.
    intro op left right x y hop hx hy
    rw [Predicate.origins, Predicate.tests_binary hop, List.flatMap_append]
    exact (hx.mono (List.subset_append_left _ _)).join op (hy.mono (List.subset_append_right _ _))
  · intro box partner x _ hx
    rw [Predicate.origins, Predicate.tests_binary (by decide), List.flatMap_append]
    exact hx.mono (List.subset_append_right _ _)
  · intro partner box x _ hx
    rw [Predicate.origins, Predicate.tests_binary (by decide), List.flatMap_append]
    exact hx.mono (List.subset_append_left _ _)

/-- The text of an expression is read with the quoting rules of SQL as it is meant. -/
theorem compile_quoted {s : LayerSchema} {engine : Engine} {p : Predicate} {text : String}
    (h : Dialect.sql.compile s.toLayer engine p = .ok (some text)) :
    ∃ fs ls, (draft s).compile p = .ok fs ∧ (marked fs).map Prod.fst = text.toList ∧
      Reads quotes (marked fs) ls ∧ Enclosed (outer ls) ∧ ∀ l ∈ ls, SoundLexeme s p l := by
  rw [Dialect.compile_eq_ok_some_iff] at h
  have hcolumn : ∀ name, (columnDraft name).text = s.toLayer.quoteIdentifier name :=
    text_columnDraft
  obtain ⟨fs, hfs, rfl⟩ := (translation hcolumn).exists_compile h
  have hquoted := quoted_draft hfs
  refine ⟨fs, lexemes fs, hfs, map_fst_marked fs, ?_, ?_, ?_⟩
  · exact reads_lexemes (fun f hf => (hquoted.sound f hf).legible) hquoted.separated
  · rw [outer_lexemes]
    exact hquoted.enclosed
  · intro l hl
    obtain ⟨f, hf, hlf⟩ := List.mem_flatMap.1 hl
    exact (hquoted.sound f hf).sound_lexemes l hlf

/-- A value with a quote in it is read as it is meant. -/
theorem compile_quoted_quote_in_value :
    ∃ fs ls, (draft { name := "roads", connection := .ogr }).compile
        (.compare (.relation .eq) "NAME" (some "O'Brien")) = .ok fs ∧
      (marked fs).map Prod.fst = " (\"NAME\"= 'O''Brien') ".toList ∧
      Reads quotes (marked fs) ls ∧ Enclosed (outer ls) ∧
      ∀ l ∈ ls, SoundLexeme { name := "roads", connection := .ogr }
        (.compare (.relation .eq) "NAME" (some "O'Brien")) l :=
  @compile_quoted _ Engine.none _ _ rfl

end FilterEncoding.Sql
