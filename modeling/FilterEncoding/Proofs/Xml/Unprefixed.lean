import FilterEncoding.Proofs.Xml.Segments
import FilterEncoding.Xml.Unprefixed

/-!
# Removing prefixes piece by piece

Prefixes are removed from the tags of a text one after another, and sections such as comments are
copied.  Where a tag or a section has just ended, or in text, the rest is treated as if it stood
alone.

* `Xml.unprefixedChars_append` — the two parts of a text that is divided there.
* `Xml.unprefixedChars_comment` — a comment is copied, unless it has tags and starts as the end of
  a comment does.
-/

namespace FilterEncoding.Xml

open Chars (through)

theorem unprefixedChars_text {c : Char} (h : c ≠ '<') (cs : List Char) :
    unprefixedChars (c :: cs) = c :: unprefixedChars cs := by
  rw [unprefixedChars, if_neg h]

theorem unprefixedChars_section {cs closing : List Char}
    (h : verbatimEnd? ('<' :: cs) = some closing) :
    unprefixedChars ('<' :: cs) = (through closing ('<' :: cs)).1 ++
      unprefixedChars (through closing ('<' :: cs)).2 := by
  rw [unprefixedChars, if_pos rfl]
  split
  · next closing' hclosing =>
    rw [h] at hclosing
    cases hclosing
    rfl
  · next hnone =>
    rw [h] at hnone
    cases hnone

/-- A tag as it is written without prefixes. -/
def writtenTag (cs : List Char) : List Char :=
  (localTag? cs).getD ('<' :: cs)

theorem unprefixedChars_tag {cs : List Char} (h : verbatimEnd? ('<' :: cs) = none) :
    unprefixedChars ('<' :: cs) =
      writtenTag (takeTag cs).1 ++ unprefixedChars (takeTag cs).2 := by
  rw [unprefixedChars, if_pos rfl]
  split
  · next closing hclosing =>
    rw [h] at hclosing
    cases hclosing
  · rfl

theorem takeTag_of_cutTag {cs body rest : List Char} (h : cutTag none cs = some (body, rest)) :
    takeTag cs = (body ++ ['>'], rest) := by
  rw [takeTag, h]

/-- Whether a text ends between two pieces: in text, or where a tag or a section has ended. -/
def endsPiece : List Char → Bool
  | [] => true
  | c :: cs =>
      if c = '<' then
        match _h : verbatimEnd? (c :: cs) with
        | some closing =>
            Chars.occurs closing (c :: cs) && endsPiece (through closing (c :: cs)).2
        | none =>
            match _h : cutTag none cs with
            | some (_, rest) => endsPiece rest
            | none => false
      else endsPiece cs
termination_by cs => cs.length
decreasing_by
  · exact Chars.length_through_lt (verbatimEnd_ne_nil _h) c cs
  · have := congrArg List.length (eq_append_of_cutTag _h)
    simp at this ⊢
    omega
  · simp

/-- Every section ends as a tag does. -/
theorem exists_of_verbatimEnd? {cs closing : List Char} (h : verbatimEnd? cs = some closing) :
    ∃ front, closing = front ++ ['>'] := by
  obtain ⟨⟨opening, ending⟩, hfind, rfl⟩ := Option.map_eq_some_iff.1 h
  have hmem := List.mem_of_find?_eq_some hfind
  simp only [verbatimSections, List.mem_cons, Prod.mk.injEq, List.not_mem_nil, or_false] at hmem
  rcases hmem with ⟨-, rfl⟩ | ⟨-, rfl⟩ | ⟨-, rfl⟩ | ⟨-, rfl⟩
  · exact ⟨['-', '-'], by simp⟩
  · exact ⟨[']', ']'], by simp⟩
  · exact ⟨['?'], by simp⟩
  · exact ⟨[], by simp⟩

/-- What a text starts with is settled when markup has ended in it. -/
theorem verbatimEnd?_append {cs : List Char} (h : '>' ∈ cs) (rest : List Char) :
    verbatimEnd? (cs ++ rest) = verbatimEnd? cs := by
  have hopening : ∀ opening : String, '>' ∉ opening.toList →
      opening.toList.isPrefixOf (cs ++ rest) = opening.toList.isPrefixOf cs :=
    fun opening hopening => Chars.isPrefixOf_append_of_mem h hopening rest
  simp only [verbatimEnd?, verbatimSections, List.find?_cons, List.find?_nil,
    hopening "<!--" (by simp), hopening "<![CDATA[" (by simp), hopening "<?" (by simp),
    hopening "<!" (by simp)]

theorem endsPiece_section {cs closing : List Char}
    (h : verbatimEnd? ('<' :: cs) = some closing) :
    endsPiece ('<' :: cs) =
      (Chars.occurs closing ('<' :: cs) && endsPiece (through closing ('<' :: cs)).2) := by
  rw [endsPiece, if_pos rfl]
  split
  · next closing' hclosing =>
    rw [h] at hclosing
    cases hclosing
    rfl
  · next hnone =>
    rw [h] at hnone
    cases hnone

theorem endsPiece_tag {cs : List Char} (h : verbatimEnd? ('<' :: cs) = none) :
    endsPiece ('<' :: cs) = (cutTag none cs).any fun (_, rest) => endsPiece rest := by
  rw [endsPiece, if_pos rfl]
  split
  · next closing hclosing =>
    rw [h] at hclosing
    cases hclosing
  · split
    · next hcut =>
      rw [hcut]
      rfl
    · next hcut =>
      rw [hcut]
      rfl

theorem endsPiece_text {c : Char} (h : c ≠ '<') (cs : List Char) :
    endsPiece (c :: cs) = endsPiece cs := by
  rw [endsPiece, if_neg h]

/-- A text that is divided between two pieces. -/
theorem unprefixedChars_append {cs : List Char} (h : endsPiece cs = true) (rest : List Char) :
    unprefixedChars (cs ++ rest) = unprefixedChars cs ++ unprefixedChars rest := by
  induction cs using endsPiece.induct with
  | case1 => rw [List.nil_append, unprefixedChars, List.nil_append]
  | case2 cs closing hclosing ih =>
      rw [endsPiece_section hclosing, Bool.and_eq_true, Chars.occurs_iff_infix] at h
      obtain ⟨hoccurs, hends⟩ := h
      have hend : '>' ∈ '<' :: cs := by
        obtain ⟨front, rfl⟩ := exists_of_verbatimEnd? hclosing
        exact hoccurs.subset (by simp)
      have hsection : verbatimEnd? ('<' :: (cs ++ rest)) = some closing :=
        (verbatimEnd?_append hend rest).trans hclosing
      rw [List.cons_append, unprefixedChars_section hsection, ← List.cons_append,
        Chars.through_append_of_infix (verbatimEnd_ne_nil hclosing) hoccurs,
        unprefixedChars_section hclosing]
      dsimp only
      rw [ih hends, List.append_assoc]
  | case3 cs body behind hcut hnone ih =>
      rw [endsPiece_tag hnone, hcut] at h
      have htext := eq_append_of_cutTag hcut
      have hend : '>' ∈ '<' :: cs := by simp [htext]
      have htag : verbatimEnd? ('<' :: (cs ++ rest)) = none :=
        (verbatimEnd?_append hend rest).trans hnone
      have hcut' : cutTag none (cs ++ rest) = some (body, behind ++ rest) := by
        rw [htext, List.append_assoc]
        exact cutTag_of_cutTag hcut (behind ++ rest)
      rw [List.cons_append, unprefixedChars_tag htag, takeTag_of_cutTag hcut',
        unprefixedChars_tag hnone, takeTag_of_cutTag hcut]
      dsimp only
      rw [ih h, List.append_assoc]
  | case4 cs hcut hnone =>
      rw [endsPiece_tag hnone, hcut] at h
      cases h
  | case5 c cs hc ih =>
      rw [endsPiece_text hc] at h
      rw [List.cons_append, unprefixedChars_text hc, unprefixedChars_text hc, ih h,
        List.cons_append]

/-! ## Comments -/

/-- A comment with its delimiters. -/
def commentChars (body : List Char) : List Char :=
  ['<', '!', '-', '-'] ++ (body ++ ['-', '-', '>'])

theorem not_infix_of_not_infix_hyphens {cs : List Char} (h : ¬['-', '-'] <:+: cs) :
    ¬['-', '-', '>'] <:+: cs :=
  fun hwithin => h (List.IsInfix.trans ⟨[], ['>'], rfl⟩ hwithin)

/-- A comment is one segment, since nothing in its body ends it. -/
theorem isMarkup_commentChars {body : List Char} (hbody : ¬['-', '-'] <:+: body) :
    IsMarkup (.comment body) (commentChars body) := by
  have hend : ¬['-', '-', '>'] <:+: body ++ ['-', '-'] := fun h =>
    not_infix_of_not_infix_hyphens hbody (Chars.infix_of_infix_append rfl (by simp) h)
  exact isMarkup_comment (Chars.cutAround_of_not_infix (by simp) hend [])

/-- A comment is copied through the first place that looks like its end. -/
theorem unprefixedChars_commentChars (body rest : List Char) :
    unprefixedChars (commentChars body ++ rest) =
      (through ['-', '-', '>'] (commentChars body ++ rest)).1 ++
        unprefixedChars (through ['-', '-', '>'] (commentChars body ++ rest)).2 := by
  have hsection : verbatimEnd? (commentChars body ++ rest) = some ['-', '-', '>'] := by
    simp [verbatimEnd?, verbatimSections, commentChars]
  exact unprefixedChars_section hsection

/-- Text without tags is copied. -/
theorem unprefixedChars_plain {cs : List Char} (h : '<' ∉ cs) (rest : List Char) :
    unprefixedChars (cs ++ rest) = cs ++ unprefixedChars rest := by
  induction cs with
  | nil => rfl
  | cons c cs ih =>
      obtain ⟨hc, hcs⟩ := not_or.1 (mt List.mem_cons.2 h)
      rw [List.cons_append, unprefixedChars_text (Ne.symm hc), ih hcs, List.cons_append]

/-- A comment without tags is copied, wherever its end is found. -/
theorem unprefixedChars_comment_plain {body : List Char} (h : '<' ∉ body) (rest : List Char) :
    unprefixedChars (commentChars body ++ rest) = commentChars body ++ unprefixedChars rest := by
  have hwithin : ['-', '-', '>'] <:+: commentChars body :=
    ⟨['<', '!', '-', '-'] ++ body, [], by simp [commentChars]⟩
  have htext := Chars.through_append ['-', '-', '>'] (commentChars body)
  -- Wherever the end is found, only text without tags is left of the comment.
  have htail : '<' ∉ (through ['-', '-', '>'] (commentChars body)).2 := by
    have hlength : (through ['-', '-', '>'] (commentChars body)).2.length <
        (commentChars body).length := Chars.length_through_lt (by simp) '<' _
    have hsuffix : (through ['-', '-', '>'] (commentChars body)).2 <:+ commentChars body :=
      ⟨_, htext⟩
    rcases List.suffix_cons_iff.1 hsuffix with hwhole | hsuffix
    · rw [hwhole] at hlength
      exact absurd hlength (Nat.lt_irrefl _)
    · exact fun hmem => h (by simpa using hsuffix.subset hmem)
  rw [unprefixedChars_commentChars, Chars.through_append_of_infix (by simp) hwithin]
  dsimp only
  rw [unprefixedChars_plain htail, ← List.append_assoc, htext]

/-- Whether a comment hides its body from the removal of prefixes.  The end of the comment is looked
for from its start on, so that the hyphens of its opening count too: tags are not hidden in a body
that starts as the end of a comment does. -/
def IsHidden (body : List Char) : Prop :=
  '<' ∈ body → ¬['>'] <+: body ∧ ¬['-', '>'] <+: body

/-- A comment that hides its body is copied. -/
theorem unprefixedChars_comment {body : List Char} (hbody : ¬['-', '-'] <:+: body)
    (hhidden : IsHidden body) (rest : List Char) :
    unprefixedChars (commentChars body ++ rest) = commentChars body ++ unprefixedChars rest := by
  by_cases htags : '<' ∈ body
  · obtain ⟨hgreater, harrow⟩ := hhidden htags
    -- The end of the comment does not occur earlier, neither in the body nor over its borders.
    have hend : ¬['-', '-', '>'] <:+: ['<', '!', '-', '-'] ++ body ++ ['-', '-'] := by
      intro h
      have hwithin := Chars.infix_of_infix_append rfl (by simp) h
      simp only [List.cons_append, List.nil_append, List.infix_cons_iff,
        List.cons_prefix_cons] at hwithin
      simp [hgreater, harrow, not_infix_of_not_infix_hyphens hbody] at hwithin
    have hthrough : through ['-', '-', '>'] (commentChars body ++ rest) =
        (commentChars body, rest) := by
      have hcut := Chars.cutAround_of_not_infix (by simp) hend rest
      rw [List.append_assoc _ body] at hcut
      exact Chars.through_of_cutAround (by simp) hcut
    rw [unprefixedChars_commentChars, hthrough]
  · exact unprefixedChars_comment_plain htags rest

end FilterEncoding.Xml
