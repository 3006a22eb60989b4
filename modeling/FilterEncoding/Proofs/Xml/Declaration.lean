import FilterEncoding.Proofs.Xml.Segments
import FilterEncoding.Xml.Document

/-!
# The declaration in front of a document

What follows the XML declaration does not depend on the text behind it.

* `Xml.IsSettled` — scans whose result, if it leaves anything, is the same with more text behind.
* `Xml.dropDeclaration?_append` — the declaration of a document with more text behind.
-/

namespace FilterEncoding.Xml

/-- Whether a scan leaves an end of the text, and the same with more behind it if it is not
empty. -/
def IsSettled (scan : List Char → Option (List Char)) : Prop :=
  ∀ ⦃cs rest⦄, scan cs = some rest →
    rest <:+ cs ∧ (rest ≠ [] → ∀ more, scan (cs ++ more) = some (rest ++ more))

theorem IsSettled.bind {first second : List Char → Option (List Char)} (hfirst : IsSettled first)
    (hsecond : IsSettled second) : IsSettled fun cs => (first cs).bind second := by
  intro cs rest h
  obtain ⟨middle, hmiddle, hrest⟩ := Option.bind_eq_some_iff.1 h
  obtain ⟨hsuffix, hmore⟩ := hfirst hmiddle
  obtain ⟨hsuffix', hmore'⟩ := hsecond hrest
  refine ⟨hsuffix'.trans hsuffix, fun hne more => ?_⟩
  have hne' : middle ≠ [] := by
    rintro rfl
    exact hne (List.suffix_nil.1 hsuffix')
  dsimp only
  rw [hmore hne' more, Option.bind_some, hmore' hne more]

theorem dropWhile_append_of_ne_nil {p : Char → Bool} {cs : List Char} (h : cs.dropWhile p ≠ [])
    (more : List Char) : (cs ++ more).dropWhile p = cs.dropWhile p ++ more := by
  rw [List.dropWhile_append, if_neg (by simpa using h)]

theorem takeWhile_append_of_ne_nil {p : Char → Bool} {cs : List Char} (h : cs.dropWhile p ≠ [])
    (more : List Char) : (cs ++ more).takeWhile p = cs.takeWhile p := by
  have hlength := congrArg List.length (List.takeWhile_append_dropWhile (p := p) (l := cs))
  have hpos := List.length_pos_iff.2 h
  rw [List.length_append] at hlength
  rw [List.takeWhile_append, if_neg (by omega)]

theorem isSettled_skipSpace : IsSettled fun cs => some (skipSpace cs) := fun cs rest h => by
  cases h
  exact ⟨List.dropWhile_suffix isSpace, fun hne more =>
    congrArg some (dropWhile_append_of_ne_nil hne more)⟩

theorem isSettled_afterOpening (opening : String) : IsSettled (afterOpening? opening) := by
  intro cs rest h
  obtain rfl := eq_append_of_afterOpening h
  refine ⟨List.suffix_append _ _, fun _ more => ?_⟩
  unfold afterOpening?
  rw [List.append_assoc, if_pos (by simp), List.drop_left]

theorem isSettled_scanName : IsSettled fun cs => (scanName? cs).map (·.2) := by
  intro cs rest h
  obtain ⟨⟨name, rest⟩, hname, rfl⟩ := Option.map_eq_some_iff.1 h
  obtain ⟨base, hbase, heq⟩ := Option.map_eq_some_iff.1 hname
  cases heq
  refine ⟨List.dropWhile_suffix _, fun hne more => ?_⟩
  dsimp only
  rw [scanName?, takeWhile_append_of_ne_nil hne, dropWhile_append_of_ne_nil hne, hbase]
  rfl

theorem isSettled_scanEquals : IsSettled scanEquals? := by
  intro cs rest h
  unfold scanEquals? at h
  split at h
  · next behind hbehind =>
    cases h
    have hsuffix : behind <:+ cs := by
      refine (List.suffix_cons '=' behind).trans ?_
      rw [← hbehind]
      exact List.dropWhile_suffix isSpace
    refine ⟨(List.dropWhile_suffix isSpace).trans hsuffix, fun hne more => ?_⟩
    have hspace : skipSpace (cs ++ more) = '=' :: (behind ++ more) := by
      rw [skipSpace, dropWhile_append_of_ne_nil, ← skipSpace, hbehind, List.cons_append]
      rw [← skipSpace, hbehind]
      exact List.cons_ne_nil _ _
    rw [scanEquals?, hspace]
    exact congrArg some (dropWhile_append_of_ne_nil hne more)
  · cases h

theorem cutFirst_append {c : Char} {cs before after : List Char}
    (h : Chars.cutFirst c cs = some (before, after)) (rest : List Char) :
    Chars.cutFirst c (cs ++ rest) = some (before, after ++ rest) := by
  induction cs generalizing before after with
  | nil => cases h
  | cons x cs ih =>
      rw [Chars.cutFirst] at h
      rw [List.cons_append, Chars.cutFirst]
      split at h
      · next hx =>
        cases h
        rw [if_pos hx]
      · next hx =>
        obtain ⟨⟨a, b⟩, hcut, heq⟩ := Option.map_eq_some_iff.1 h
        cases heq
        rw [if_neg hx, ih hcut]
        rfl

/-- A quoted value without `<`. -/
theorem isSettled_scanQuoted : IsSettled fun cs =>
    (scanQuoted? cs).bind fun (raw, rest) => if raw.contains '<' then none else some rest := by
  intro cs rest h
  obtain ⟨⟨raw, behind⟩, hquoted, h⟩ := Option.bind_eq_some_iff.1 h
  obtain ⟨hraw, heq⟩ := Option.ite_none_left_eq_some.1 h
  cases heq
  cases cs with
  | nil => cases hquoted
  | cons q cs =>
      obtain ⟨hq, hcut⟩ := Option.ite_none_right_eq_some.1 hquoted
      refine ⟨?_, fun _ more => ?_⟩
      · rw [Chars.eq_append_of_cutFirst hcut]
        exact ⟨q :: raw ++ [q], by simp⟩
      · dsimp only
        rw [List.cons_append, scanQuoted?, if_pos hq, cutFirst_append hcut, Option.bind_some,
          if_neg hraw]

theorem isSettled_scanDeclared (keyword : String) : IsSettled (scanDeclared? keyword) := by
  have hscan := (isSettled_scanName.bind isSettled_scanEquals).bind isSettled_scanQuoted
  have heq : ∀ cs, scanDeclared? keyword cs =
      if keyword.toList.isPrefixOf cs then
        (((scanName? cs).map (·.2)).bind scanEquals?).bind fun cs =>
          (scanQuoted? cs).bind fun (raw, rest) => if raw.contains '<' then none else some rest
      else none := by
    intro cs
    unfold scanDeclared?
    cases scanName? cs <;> rfl
  intro cs rest h
  rw [heq] at h
  obtain ⟨hkeyword, h⟩ := Option.ite_none_right_eq_some.1 h
  obtain ⟨hsuffix, hmore⟩ := hscan h
  refine ⟨hsuffix, fun hne more => ?_⟩
  rw [heq, if_pos ?_]
  · exact hmore hne more
  · rw [List.isPrefixOf_iff_prefix] at hkeyword ⊢
    exact hkeyword.trans (List.prefix_append cs more)

theorem isSettled_scanGap : IsSettled scanGap? := by
  intro cs rest h
  cases cs with
  | nil =>
      cases h
      exact ⟨List.suffix_refl [], fun hne => absurd rfl hne⟩
  | cons c cs =>
      rw [scanGap?] at h
      split at h
      · next hc =>
        obtain ⟨hsuffix, hmore⟩ := isSettled_skipSpace h
        refine ⟨hsuffix, fun hne more => ?_⟩
        rw [List.cons_append, scanGap?, if_pos hc]
        exact hmore hne more
      · next hc =>
        obtain ⟨hend, heq⟩ := Option.ite_none_right_eq_some.1 h
        cases heq
        refine ⟨List.suffix_refl _, fun _ more => ?_⟩
        rw [List.isPrefixOf_iff_prefix] at hend
        rw [List.cons_append, scanGap?, if_neg hc, if_pos]
        rw [List.isPrefixOf_iff_prefix, ← List.cons_append]
        exact hend.trans (List.prefix_append _ more)

/-! ## The whole declaration -/

/-- Scans to the end of the declaration. -/
structure ScansDeclaration (scan : List Char → Option (List Char)) : Prop where
  settled : IsSettled scan
  mem : ∀ {cs rest}, scan cs = some rest → '?' ∈ cs

theorem IsSettled.scansDeclaration {first second : List Char → Option (List Char)}
    (hfirst : IsSettled first) (hsecond : ScansDeclaration second) :
    ScansDeclaration fun cs => (first cs).bind second where
  settled := hfirst.bind hsecond.settled
  mem h := by
    obtain ⟨middle, hmiddle, hrest⟩ := Option.bind_eq_some_iff.1 h
    exact (hfirst hmiddle).1.subset (hsecond.mem hrest)

/-- A part of the declaration that may be left out. -/
theorem ScansDeclaration.optional {first second : List Char → Option (List Char)}
    (hfirst : ScansDeclaration first) (hsecond : ScansDeclaration second) (keyword : String)
    (hkeyword : '?' ∉ keyword.toList) : ScansDeclaration fun cs =>
      if keyword.toList.isPrefixOf cs then first cs else second cs where
  settled := by
    intro cs rest h
    -- Both parts go on to the end of the declaration, so that a question mark stands in the text
    -- and more text cannot complete the keyword.
    have hmore : ∀ more, '?' ∈ cs →
        keyword.toList.isPrefixOf (cs ++ more) = keyword.toList.isPrefixOf cs :=
      fun more hmem => Chars.isPrefixOf_append_of_mem hmem hkeyword more
    dsimp only at h ⊢
    split at h
    · next hlead =>
      refine ⟨(hfirst.settled h).1, fun hne more => ?_⟩
      rw [hmore more (hfirst.mem h), if_pos hlead]
      exact (hfirst.settled h).2 hne more
    · next hlead =>
      refine ⟨(hsecond.settled h).1, fun hne more => ?_⟩
      rw [hmore more (hsecond.mem h), if_neg hlead]
      exact (hsecond.settled h).2 hne more
  mem h := by
    split at h
    · exact hfirst.mem h
    · exact hsecond.mem h

theorem ScansDeclaration.congr {scan scan' : List Char → Option (List Char)}
    (h : ScansDeclaration scan) (heq : ∀ cs, scan' cs = scan cs) : ScansDeclaration scan' := by
  rwa [show scan' = scan from funext heq]

theorem scansDeclaration_scanDeclaration : ScansDeclaration scanDeclaration? := by
  have hend : ScansDeclaration fun cs => (some (skipSpace cs)).bind (afterOpening? "?>") :=
    isSettled_skipSpace.scansDeclaration
      ⟨isSettled_afterOpening "?>", fun h => by simp [eq_append_of_afterOpening h]⟩
  have hstandalone := ((isSettled_scanDeclared "standalone").scansDeclaration hend).optional hend
    "standalone" (by simp)
  have hencoding := (((isSettled_scanDeclared "encoding").bind
    isSettled_scanGap).scansDeclaration hstandalone).optional hstandalone
    "encoding" (by simp)
  have hversion := ((isSettled_skipSpace.bind (isSettled_scanDeclared "version")).bind
    isSettled_scanGap).scansDeclaration hencoding
  -- The parts were put together from the last to the first; the scan nests the other way.
  refine hversion.congr fun cs => ?_
  unfold scanDeclaration?
  simp only [Option.bind_eq_bind, Option.bind_some, Option.bind_assoc]

/-- A document without a byte order mark in front. -/
def dropMark (cs : List Char) : List Char :=
  match cs with
  | '\uFEFF' :: rest => rest
  | _ => cs

theorem dropMark_suffix (cs : List Char) : dropMark cs <:+ cs := by
  unfold dropMark
  split
  · exact List.suffix_cons _ _
  · exact List.suffix_refl _

theorem dropMark_append {cs : List Char} (hne : cs ≠ []) (more : List Char) :
    dropMark (cs ++ more) = dropMark cs ++ more := by
  obtain ⟨c, cs, rfl⟩ := List.exists_cons_of_ne_nil hne
  unfold dropMark
  rw [List.cons_append]
  split
  · next heq =>
    cases heq
    rfl
  · next hmark =>
    split
    · next heq =>
      cases heq
      exact absurd rfl (hmark _)
    · rfl

theorem dropDeclaration?_eq (cs : List Char) : dropDeclaration? cs =
    match afterOpening? "<?xml " (dropMark cs) with
    | some rest => scanDeclaration? rest
    | none => some (dropMark cs) :=
  rfl

theorem suffix_of_dropDeclaration? {cs body : List Char} (h : dropDeclaration? cs = some body) :
    body <:+ cs := by
  rw [dropDeclaration?_eq] at h
  split at h
  · next rest hrest =>
    obtain ⟨hsuffix, -⟩ := scansDeclaration_scanDeclaration.settled h
    exact (hsuffix.trans (isSettled_afterOpening _ hrest).1).trans (dropMark_suffix cs)
  · cases h
    exact dropMark_suffix cs

/-- What follows the declaration of a document, if it is not empty and can be cut. -/
theorem dropDeclaration?_append {cs body : List Char} {ss : List Segment}
    (h : dropDeclaration? cs = some body) (hne : body ≠ []) (hbody : segments body = some ss)
    (more : List Char) : dropDeclaration? (cs ++ more) = some (body ++ more) := by
  have hcs : cs ≠ [] := by
    rintro rfl
    exact hne (List.suffix_nil.1 (suffix_of_dropDeclaration? h))
  rw [dropDeclaration?_eq] at h ⊢
  rw [dropMark_append hcs]
  split at h
  · next rest hrest =>
    have hrest' : rest ≠ [] := by
      rintro rfl
      exact hne (List.suffix_nil.1 (scansDeclaration_scanDeclaration.settled h).1)
    rw [(isSettled_afterOpening _ hrest).2 hrest' more]
    exact (scansDeclaration_scanDeclaration.settled h).2 hne more
  · next hnone =>
    cases h
    -- Without a declaration, more text could only complete its opening if the first piece of
    -- markup did not end in the text; but the text can be cut.
    have hopening : "<?xml ".toList.isPrefixOf (dropMark cs ++ more) =
        "<?xml ".toList.isPrefixOf (dropMark cs) := by
      obtain ⟨c, body, heq⟩ := List.exists_cons_of_ne_nil hne
      rw [heq] at hbody ⊢
      by_cases hc : c = '<'
      · subst hc
        exact Chars.isPrefixOf_append_of_mem (mem_of_segments hbody) (by simp) more
      · have hbeq : ('<' == c) = false := beq_eq_false_iff_ne.2 (Ne.symm hc)
        simp [List.isPrefixOf, hbeq]
    have hnot : ¬"<?xml ".toList.isPrefixOf (dropMark cs) = true := fun hlead => by
      rw [afterOpening?, if_pos hlead] at hnone
      cases hnone
    rw [afterOpening?, hopening, if_neg hnot]

end FilterEncoding.Xml
