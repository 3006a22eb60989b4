import FilterEncoding.Chars.Cut

/-!
# The segments of a document

A document is cut at its markup: comments, CDATA sections, processing instructions and tags, with
runs of text between them.  A segment holds what stands between its delimiters.  Whether this
content is well formed is decided later; a segment without its closing delimiter already makes the
document ill-formed.
-/

namespace FilterEncoding.Xml

inductive Segment where
  | text (raw : List Char)
  | comment (body : List Char)
  | cdata (body : List Char)
  | instruction (body : List Char)
  | startTag (body : List Char)
  | endTag (body : List Char)
  deriving Repr, DecidableEq

/-- Cut a tag, whose opening delimiter is already gone, at the first `>` outside quotes.  The
argument `quote` is the quote character the scan is in. -/
def cutTag (quote : Option Char) : List Char → Option (List Char × List Char)
  | [] => none
  | c :: cs =>
      match quote with
      | some q => (cutTag (if c = q then none else quote) cs).map fun (a, b) => (c :: a, b)
      | none =>
          if c = '>' then some ([], cs)
          else
            (cutTag (if c = '"' ∨ c = '\'' then some c else none) cs).map fun (a, b) =>
              (c :: a, b)

/-- What follows `opening`, if the text starts with it. -/
def afterOpening? (opening : String) (cs : List Char) : Option (List Char) :=
  if opening.toList.isPrefixOf cs then some (cs.drop opening.toList.length) else none

/-- The first segment of a text that is not empty, and the rest.  `none` stands for markup that is
not closed, and for a document type declaration. -/
def segment? (cs : List Char) : Option (Segment × List Char) :=
  if let some rest := afterOpening? "<!--" cs then
    (Chars.cutAround "-->".toList rest).map fun (body, rest) => (.comment body, rest)
  else if let some rest := afterOpening? "<![CDATA[" cs then
    (Chars.cutAround "]]>".toList rest).map fun (body, rest) => (.cdata body, rest)
  else if let some rest := afterOpening? "<?" cs then
    (Chars.cutAround "?>".toList rest).map fun (body, rest) => (.instruction body, rest)
  else if "<!".toList.isPrefixOf cs then none
  else if let some rest := afterOpening? "</" cs then
    (cutTag none rest).map fun (body, rest) => (.endTag body, rest)
  else if let some rest := afterOpening? "<" cs then
    (cutTag none rest).map fun (body, rest) => (.startTag body, rest)
  else some (.text (cs.takeWhile (· != '<')), cs.dropWhile (· != '<'))

theorem eq_append_of_cutTag {quote : Option Char} {cs body rest : List Char}
    (h : cutTag quote cs = some (body, rest)) : cs = body ++ '>' :: rest := by
  induction cs generalizing quote body rest with
  | nil => cases quote <;> simp [cutTag] at h
  | cons c cs ih =>
      cases quote with
      | some q =>
          simp only [cutTag, Option.map_eq_some_iff] at h
          obtain ⟨⟨a, b⟩, hab, heq⟩ := h
          cases heq
          rw [ih hab]
          rfl
      | none =>
          simp only [cutTag] at h
          split at h
          · next hc =>
            cases h
            simp [hc]
          · simp only [Option.map_eq_some_iff] at h
            obtain ⟨⟨a, b⟩, hab, heq⟩ := h
            cases heq
            rw [ih hab]
            rfl

theorem eq_append_of_afterOpening {opening : String} {cs rest : List Char}
    (h : afterOpening? opening cs = some rest) : cs = opening.toList ++ rest := by
  simp only [afterOpening?, Option.ite_none_right_eq_some] at h
  obtain ⟨hp, hr⟩ := h
  obtain ⟨tail, htail⟩ := List.isPrefixOf_iff_prefix.1 hp
  cases hr
  simp [← htail]

private theorem length_lt_of_cutAround {opening closing : String} {cs inner body rest : List Char}
    (ho : afterOpening? opening cs = some inner) (hne : opening.toList ≠ [])
    (hc : Chars.cutAround closing.toList inner = some (body, rest)) :
    rest.length < cs.length := by
  have h1 := congrArg List.length (eq_append_of_afterOpening ho)
  have h2 := congrArg List.length (Chars.eq_append_of_cutAround hc)
  have h3 := List.length_pos_iff.2 hne
  simp only [List.length_append] at h1 h2
  omega

private theorem length_lt_of_cutTag {opening : String} {cs inner body rest : List Char}
    (ho : afterOpening? opening cs = some inner) (hc : cutTag none inner = some (body, rest)) :
    rest.length < cs.length := by
  have h1 := congrArg List.length (eq_append_of_afterOpening ho)
  have h2 := congrArg List.length (eq_append_of_cutTag hc)
  simp only [List.length_append, List.length_cons] at h1 h2
  omega

/-- Every segment takes at least one character. -/
theorem length_lt_of_segment {c : Char} {cs rest : List Char} {s : Segment}
    (h : segment? (c :: cs) = some (s, rest)) : rest.length < (c :: cs).length := by
  simp only [segment?] at h
  repeat' split at h
  all_goals first
    | contradiction
    | (simp only [Option.map_eq_some_iff, Prod.exists] at h
       obtain ⟨body, rest', hcut, heq⟩ := h
       cases heq
       first
         | exact length_lt_of_cutAround ‹_› (by simp) hcut
         | exact length_lt_of_cutTag ‹_› hcut)
    | skip
  have hc : (c != '<') = true := by
    rename_i hnone
    by_cases hlt : c = '<'
    · subst hlt
      simp [afterOpening?] at hnone
    · simpa using hlt
  cases h
  simp only [List.dropWhile_cons, hc, if_true]
  exact Nat.lt_succ_of_le (List.dropWhile_suffix _).length_le

/-- Cut a document into its segments. -/
def segments : List Char → Option (List Segment)
  | [] => some []
  | c :: cs =>
      match _h : segment? (c :: cs) with
      | none => none
      | some (s, rest) => (segments rest).map (s :: ·)
termination_by cs => cs.length
decreasing_by exact length_lt_of_segment _h

end FilterEncoding.Xml
