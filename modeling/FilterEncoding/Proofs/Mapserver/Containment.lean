import FilterEncoding.Proofs.Mapserver.Draft

/-!
# Patterns that end their regular expression

In the Mapserver dialect a request stays in its tokens, with one exception: a slash of a pattern
gets a backslash in front, but a backslash of the pattern does not.  Where a backslash of the
pattern takes the written one with it, the slash ends the regular expression, and what follows
stands outside.

* `slashEnds` — the exception, as a condition on a pattern.
* `leads_patternChars`, `exists_of_slashEnds` — with and without it.
* `contained_iff_safe_patterns` — an expression contains its request exactly if no pattern is an
  exception.
-/

namespace FilterEncoding.Mapserver

open FilterEncoding.Geometry (Engine)
open Bracketed
open Reading

/-! ## Patterns -/

/-- Whether a character that acts for itself is a slash whose backslash is taken. -/
def endsAt (m : Metacharacters) (taken : Bool) (c : Char) : Bool :=
  taken && c = '/' && c != m.single && c != m.wildcard

/-- Whether the character behind one that acts for itself is taken by a backslash. -/
def takesNext (m : Metacharacters) (taken : Bool) (c : Char) : Bool :=
  !taken && c = '\\' && c != m.single && c != m.wildcard

/-- Whether a slash of a pattern ends the regular expression.  `taken` says that a backslash in
front takes the next character with it. -/
def slashEnds (m : Metacharacters) : Bool → List Char → Bool
  | _, [] => false
  | taken, [c] => c != m.escape && endsAt m taken c
  | taken, c :: d :: cs =>
      if c = m.escape then (taken && d = '/') || slashEnds m (taken && d = '\\') cs
      else endsAt m taken c || slashEnds m (takesNext m taken c) (d :: cs)

/-- The characters of a list with their origin. -/
def marks (origin : Origin) (cs : List Char) : List (Char × Origin) :=
  cs.map fun c => (c, origin)

/-- A character that neither ends the expression nor takes another one with it. -/
theorem leads_char (origin : Origin) (taken : Bool) {c : Char} (hslash : c ≠ '/')
    (hbackslash : c ≠ '\\') : Leads regexQuote taken (marks origin [c]) false := by
  cases taken with
  | true => exact leads_taken _
  | false => exact sealed_iff_leads.1 (sealed_singleton hslash fun _ => hbackslash)

/-- A backslash is taken or takes the next character with it. -/
theorem leads_slash (origin : Origin) (taken : Bool) :
    Leads regexQuote taken (marks origin ['\\']) (!taken) := by
  cases taken with
  | true => exact leads_taken _
  | false => exact leads_backslash rfl rfl (by decide)

theorem leads_patternChar (origin : Origin) {m : Metacharacters} {taken : Bool} {c : Char}
    (h : endsAt m taken c = false) :
    Leads regexQuote taken (marks origin (patternChar m c)) (takesNext m taken c) := by
  unfold patternChar takesNext
  -- A metacharacter is replaced by characters that neither end the expression nor take another;
  -- any other one is a slash, a backslash or harmless.
  split
  · next hsingle =>
    rw [hsingle, bne_self_eq_false, Bool.and_false, Bool.false_and]
    exact leads_char origin taken (by decide) (by decide)
  · next hsingle =>
    split
    · next hwildcard =>
      rw [hwildcard, bne_self_eq_false, Bool.and_false]
      exact (leads_char origin taken (by decide) (by decide)).append
        (leads_char origin false (by decide) (by decide))
    · next hwildcard =>
      rw [endsAt, bne_iff_ne.2 hsingle, bne_iff_ne.2 hwildcard, Bool.and_true, Bool.and_true] at h
      rw [bne_iff_ne.2 hsingle, bne_iff_ne.2 hwildcard, Bool.and_true, Bool.and_true]
      split
      · next hslash =>
        rw [hslash, decide_eq_true rfl, Bool.and_true] at h
        rw [h, hslash]
        exact (leads_slash origin false).append (leads_taken _)
      · next hslash =>
        by_cases hbackslash : c = '\\'
        · rw [hbackslash, decide_eq_true rfl, Bool.and_true]
          exact leads_slash origin taken
        · rw [decide_eq_false hbackslash, Bool.and_false]
          exact leads_char origin taken hslash hbackslash

/-- A slash whose backslash is taken. -/
theorem patternChar_of_endsAt {m : Metacharacters} {taken : Bool} {c : Char}
    (h : endsAt m taken c = true) : taken = true ∧ patternChar m c = ['\\', '/'] := by
  simp only [endsAt, Bool.and_eq_true, decide_eq_true_eq, bne_iff_ne] at h
  obtain ⟨⟨⟨htaken, hslash⟩, hsingle⟩, hwildcard⟩ := h
  exact ⟨htaken, by rw [patternChar, if_neg hsingle, if_neg hwildcard, if_pos hslash]⟩

/-- The backslash of an escape character, and the character behind it. -/
theorem leads_escaped (origin : Origin) {taken : Bool} {d : Char}
    (h : (taken && d = '/') = false) :
    Leads regexQuote taken (marks origin ['\\', d]) (taken && d = '\\') := by
  cases taken with
  | false => exact (leads_slash origin false).append (leads_taken _)
  | true =>
      have hslash : d ≠ '/' := of_decide_eq_false h
      refine (leads_slash origin true).append ?_
      by_cases hbackslash : d = '\\'
      · rw [hbackslash]
        exact leads_slash origin false
      · rw [decide_eq_false hbackslash]
        exact leads_char origin false hslash hbackslash

/-- Without the exception a pattern does not lead out of the regular expression. -/
theorem leads_patternChars (origin : Origin) {m : Metacharacters} {taken : Bool} {cs : List Char}
    (h : slashEnds m taken cs = false) :
    Leads regexQuote taken (marks origin (patternChars m cs ++ ['$'])) false := by
  -- The induction is on the pattern, for both places; the final `$` takes up a backslash that is
  -- still open behind it.
  fun_induction slashEnds m taken cs with
  | case1 taken => exact leads_char origin taken (by decide) (by decide)
  | case2 taken c =>
      have hend : ∀ b, Leads regexQuote b (marks origin ['$']) false := fun b =>
        leads_char origin b (by decide) (by decide)
      unfold patternChars
      split
      · exact (leads_slash origin taken).append (hend _)
      · next hescape =>
        rw [bne_iff_ne.2 hescape, Bool.true_and] at h
        rw [marks, List.map_append]
        exact (leads_patternChar origin h).append (hend _)
  | case3 taken d cs ih =>
      rw [Bool.or_eq_false_iff] at h
      rw [patternChars, if_pos rfl]
      exact (leads_escaped origin h.1).append (ih h.2)
  | case4 taken c d cs hc ih =>
      rw [Bool.or_eq_false_iff] at h
      rw [patternChars, if_neg hc, List.append_assoc, marks, List.map_append]
      exact (leads_patternChar origin h.1).append (ih h.2)

/-- With the exception the slash stands where it ends the regular expression. -/
theorem exists_of_slashEnds (origin : Origin) {m : Metacharacters} {taken : Bool} {cs : List Char}
    (h : slashEnds m taken cs = true) :
    ∃ before after, patternChars m cs ++ ['$'] = before ++ '/' :: after ∧
      Leads regexQuote taken (marks origin before) false := by
  fun_induction slashEnds m taken cs with
  | case1 taken => cases h
  | case2 taken c =>
      rw [Bool.and_eq_true_iff, bne_iff_ne] at h
      -- The backslash in front of the slash is itself taken, and so the slash is not.
      obtain ⟨rfl, hslash⟩ := patternChar_of_endsAt h.2
      refine ⟨['\\'], ['$'], ?_, leads_slash origin true⟩
      rw [patternChars, if_neg h.1, hslash]
      rfl
  | case3 taken d cs ih =>
      rw [patternChars, if_pos rfl]
      cases hslash : taken && d = '/' with
      | true =>
          rw [Bool.and_eq_true_iff, decide_eq_true_eq] at hslash
          obtain ⟨rfl, rfl⟩ := hslash
          exact ⟨['\\'], patternChars m cs ++ ['$'], rfl, leads_slash origin true⟩
      | false =>
          rw [hslash, Bool.false_or] at h
          obtain ⟨before, after, hsplit, hbefore⟩ := ih h
          refine ⟨'\\' :: d :: before, after, ?_, (leads_escaped origin hslash).append hbefore⟩
          rw [List.cons_append, List.cons_append, hsplit]
          rfl
  | case4 taken c d cs hc ih =>
      rw [patternChars, if_neg hc, List.append_assoc]
      cases hends : endsAt m taken c with
      | true =>
          obtain ⟨rfl, hslash⟩ := patternChar_of_endsAt hends
          rw [hslash]
          exact ⟨['\\'], patternChars m (d :: cs) ++ ['$'], rfl, leads_slash origin true⟩
      | false =>
          rw [hends, Bool.false_or] at h
          obtain ⟨before, after, hsplit, hbefore⟩ := ih h
          refine ⟨patternChar m c ++ before, after, ?_, ?_⟩
          · rw [hsplit, List.append_assoc]
          · rw [marks, List.map_append]
            exact (leads_patternChar origin hends).append hbefore

theorem toList_regex {m : Metacharacters} {pattern : String} (h : pattern ≠ "") :
    (regex m pattern).toList = '^' :: (patternChars m pattern.toList ++ ['$']) := by
  rw [regex, if_neg h]
  simp

/-- The body of a regular expression. -/
theorem sealed_regex {m : Metacharacters} {pattern : String}
    (h : slashEnds m false pattern.toList = false) :
    Sealed regexQuote (mark (.pattern pattern) (regex m pattern)) := by
  by_cases hempty : pattern = ""
  · rw [regex, if_pos hempty]
    exact sealed_nil
  · rw [mark, toList_regex hempty]
    exact (leads_char (.pattern pattern) false (by decide) (by decide)).append
      (leads_patternChars (.pattern pattern) h)

theorem closesEarly_regex {m : Metacharacters} {pattern : String}
    (h : slashEnds m false pattern.toList = true) :
    ClosesEarly regexQuote (.pattern pattern) (regex m pattern) := by
  have hempty : pattern ≠ "" := by
    rintro rfl
    cases h
  obtain ⟨before, after, hsplit, hbefore⟩ := exists_of_slashEnds (.pattern pattern) h
  refine ⟨trivial, '^' :: before, after, ?_, ?_⟩
  · rw [toList_regex hempty, hsplit]
    rfl
  · exact (leads_char (.pattern pattern) false (by decide) (by decide)).append hbefore

/-! ## Expressions -/

/-- Tests whose texts contain the request. -/
def IsSafe : Test → Prop
  | .like _ pattern m _ => slashEnds m false pattern.toList = false
  | _ => True

theorem contains_compareDraft {s : LayerSchema} {r : Relation} {name : String}
    {value : Option String} {ignoreCase : Bool} (hname : IsCleanName name) :
    Contains quotes True (compareDraft s.toLayer r name value ignoreCase) := by
  unfold compareDraft
  rw [s.getD_map_escapeString]
  dsimp only
  generalize hstring : Dialect.mapserver.isString s.toLayer name value = isString
  have hnumber : isString = false → Number.isNumeric (value.getD "") = true := fun hnot =>
    Dialect.isNumber_getD_of_not_isString (hstring.trans hnot)
  have hoperator : Plain quotes (" " ++ relation r (isString && ignoreCase) ++ " ") := by
    cases r <;> cases (isString && ignoreCase) <;> decide
  have hblank : Plain quotes " " := by decide
  have hcomparison := contains_comparison rules hname hoperator hnumber
  exact hcomparison.group hblank hblank rules.parens

theorem contains_betweenDraft {s : LayerSchema} {name lower upper : String}
    (hname : IsCleanName name) :
    Contains quotes True (betweenDraft s.toLayer name lower upper) := by
  unfold betweenDraft
  dsimp only
  generalize hstring : Dialect.mapserver.isStringRange s.toLayer name lower upper = isString
  have hnumbers : isString = false →
      Number.isNumeric lower = true ∧ Number.isNumeric upper = true := fun hnot =>
    Dialect.isNumber_of_not_isStringRange (hstring.trans hnot)
  have hatLeast : Plain quotes "  >= " := by decide
  have hatMost : Plain quotes "  <= " := by decide
  have hand : Plain quotes " AND  " := by decide
  have hblank : Plain quotes " " := by decide
  have hlower := contains_comparison rules hname hatLeast fun h => (hnumbers h).1
  have hupper := contains_comparison rules hname hatMost fun h => (hnumbers h).2
  have hboth := (hlower.append ((Contains.words hand).cons hupper)).congr and_self_iff
  exact hboth.group hblank plain_empty rules.parens

theorem contains_likeDraft {name pattern : String} {m : Metacharacters} {ignoreCase : Bool}
    (hname : IsCleanName name) :
    Contains quotes (slashEnds m false pattern.toList = false)
      (likeDraft name pattern m ignoreCase) := by
  have hoperator : Plain quotes (if ignoreCase then " ~* " else " =~ ") := by
    cases ignoreCase <;> decide
  have hregex : Contains quotes (slashEnds m false pattern.toList = false)
      [.token regexQuote (.pattern pattern) (regex m pattern)] :=
    .token rfl (by decide) sealed_regex fun h => closesEarly_regex (Bool.not_eq_false _ ▸ h)
  have hattribute := contains_attributeDraft rules hname true
  have hmatch := hattribute.cons ((Contains.words hoperator).cons hregex)
  exact hmatch.parenthesized rules.parens

theorem confines (s : LayerSchema) :
    Confines quotes (IsCleanTest s.idAttribute) IsSafe (draft s) where
  test {t fs} hclean ht := by
    cases t with
    | relation r name value ignoreCase =>
        cases ht
        exact contains_compareDraft (hclean name List.mem_cons_self)
    | between name lower upper =>
        cases ht
        exact contains_betweenDraft (hclean name List.mem_cons_self)
    | like name pattern m ignoreCase =>
        cases ht
        exact contains_likeDraft (hclean name List.mem_cons_self)
    | featureIds tokens => exact contains_featureIdsDraft rules (by decide) hclean ht
    | inBox rectangle crs => cases ht
    | toShape op shape crs distance => cases ht
  negate h := by
    have hnot : Plain quotes "NOT " := by decide
    have hblank : Plain quotes " " := by decide
    exact ((Contains.words hnot).cons h).group hblank hblank rules.parens
  join op hx hy := by
    have hkeyword : Plain quotes (" " ++ op.keyword ++ " ") := by cases op <;> decide
    have hblank : Plain quotes " " := by decide
    exact (hx.append ((Contains.words hkeyword).cons hy)).group hblank hblank rules.parens
  besideBox h := h.parenthesized rules.parens
  inBox _ _ := trivial
  toShape _ _ _ _ := trivial

/-- An expression contains its request exactly if no slash of a pattern ends a regular
expression. -/
theorem contained_iff_safe_patterns {s : LayerSchema} {engine : Engine} {p : Predicate}
    {text : String} (hnames : ∀ name, p.IsNamed s.idAttribute name → IsCleanName name)
    (h : Dialect.mapserver.compile s.toLayer engine p = .ok (some text)) :
    ∃ fs, (draft s).compile p = .ok fs ∧ (marked fs).map Prod.fst = text.toList ∧
      (Contained quotes (marked fs) ↔ ∀ t ∈ p.tests, IsSafe t) := by
  rw [Dialect.compile_eq_ok_some_iff] at h
  obtain ⟨fs, hfs, rfl⟩ := (translation s.toLayer).exists_compile h
  refine ⟨fs, hfs, map_fst_marked fs, Contains.contained_iff ?_⟩
  exact (confines s).compile hfs fun t ht name hname =>
    hnames name (Predicate.isNamed_of_mem_tests ht hname)

/-- A backslash in front of a slash leads out of the regular expression. -/
theorem not_contained_backslash_slash :
    ∃ fs, (draft { name := "roads" }).compile (.comparison .like (.property "NAME")
        (.literal (some "\\/") false) (some ⟨"*", "#", "!", false⟩)) = .ok fs ∧
      (marked fs).map Prod.fst = "(\"[NAME]\" =~ /^\\\\/$/)".toList ∧
      ¬Contained quotes (marked fs) := by
  have hnames : ∀ name, Predicate.IsNamed none (.comparison .like (.property "NAME")
      (.literal (some "\\/") false) (some ⟨"*", "#", "!", false⟩)) name → IsCleanName name := by
    rintro name (hname | hname)
    · have heq : name = "NAME" := by simpa [Predicate.nodes] using hname
      rw [heq]
      decide
    · cases hname
  obtain ⟨fs, hfs, htext, hcontained⟩ :=
    @contained_iff_safe_patterns { name := "roads" } Engine.none _ _ hnames rfl
  refine ⟨fs, hfs, htext, fun h => ?_⟩
  exact absurd (hcontained.1 h _ List.mem_cons_self) (by decide : ¬slashEnds _ _ _ = _)

end FilterEncoding.Mapserver
