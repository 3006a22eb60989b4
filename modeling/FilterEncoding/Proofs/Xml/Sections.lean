import FilterEncoding.Proofs.Xml.Spelling

/-!
# Sections that are copied

Comments, CDATA sections and processing instructions are copied when prefixes are removed, and what
follows them is treated as if it stood alone.  The end of a section is looked for from its start on,
so that the hyphens that open a comment count too: a comment whose body starts with `>` or `->` is
copied up to there only, and tags in the rest of its body lose their prefixes.

* `Xml.Section` — a section with its delimiters.
* `Xml.IsTagsAndText` — texts that are made of complete tags and of text between them.
* `Xml.unprefixed_section` — what is left of a section between tags.
-/

namespace FilterEncoding.Xml

open Chars (through)

inductive SectionKind where
  | comment
  | cdata
  | instruction
  deriving Repr, DecidableEq

namespace SectionKind

def opening : SectionKind → List Char
  | comment => ['<', '!', '-', '-']
  | cdata => ['<', '!', '[', 'C', 'D', 'A', 'T', 'A', '[']
  | instruction => ['<', '?']

def closing : SectionKind → List Char
  | comment => ['-', '-', '>']
  | cdata => [']', ']', '>']
  | instruction => ['?', '>']

/-- Whether a text may stand between the delimiters.  What a processing instruction starts with is
not asked, as long as its opening and its body do not make up its end. -/
def IsBody : SectionKind → List Char → Prop
  | comment, body => ¬['-', '-'] <:+: body ∧ body.getLast? ≠ some '-'
  | cdata, body => ¬[']', ']', '>'] <:+: body
  | instruction, body => ¬['?', '>'] <:+: '?' :: body

instance : (kind : SectionKind) → DecidablePred kind.IsBody
  | comment, body => inferInstanceAs (Decidable (¬['-', '-'] <:+: body ∧ body.getLast? ≠ some '-'))
  | cdata, body => inferInstanceAs (Decidable (¬[']', ']', '>'] <:+: body))
  | instruction, body => inferInstanceAs (Decidable (¬['?', '>'] <:+: '?' :: body))

end SectionKind

/-- A comment, a CDATA section or a processing instruction. -/
structure Section where
  kind : SectionKind
  body : List Char
  isBody : kind.IsBody body

namespace Section

def chars (s : Section) : List Char :=
  s.kind.opening ++ (s.body ++ s.kind.closing)

def written (s : Section) : String :=
  String.ofList s.chars

/-- What is copied of a section as a section, and what is left of it.  Something is left of a
comment whose body starts as the end of a comment does. -/
def cut (s : Section) : List Char × List Char :=
  match s.kind, s.body with
  | .comment, '>' :: more => (['<', '!', '-', '-', '>'], more ++ ['-', '-', '>'])
  | .comment, '-' :: '>' :: more => (['<', '!', '-', '-', '-', '>'], more ++ ['-', '-', '>'])
  | _, _ => (s.chars, [])

def copied (s : Section) : String :=
  String.ofList s.cut.1

def left (s : Section) : String :=
  String.ofList s.cut.2

/-- Whether the tags in a section are hidden from the removal of prefixes. -/
def Hides (s : Section) : Prop :=
  s.kind = .comment → IsHidden s.body

/-- Nothing of a section is lost. -/
theorem cut_append (s : Section) : s.cut.1 ++ s.cut.2 = s.chars := by
  obtain ⟨kind, body, hbody⟩ := s
  unfold cut
  split
  · next hkind hstart =>
    cases hkind
    cases hstart
    simp [chars, SectionKind.opening, SectionKind.closing]
  · next hkind hstart =>
    cases hkind
    cases hstart
    simp [chars, SectionKind.opening, SectionKind.closing]
  · exact List.append_nil _

/-- A section is known by its opening. -/
theorem verbatimEnd?_chars (s : Section) (rest : List Char) :
    verbatimEnd? (s.chars ++ rest) = some s.kind.closing := by
  obtain ⟨kind, body, hbody⟩ := s
  cases kind <;> simp [verbatimEnd?, verbatimSections, chars, SectionKind.opening,
    SectionKind.closing]

/-- A section ends where its end occurs first, unless it is a comment of which something is left. -/
theorem through_chars {s : Section} (hcomment : s.kind = .comment →
      ¬['>'] <+: s.body ∧ ¬['-', '>'] <+: s.body) (rest : List Char) :
    through s.kind.closing (s.chars ++ rest) = (s.chars, rest) := by
  have hne : s.kind.closing ≠ [] := by
    cases s.kind <;> simp [SectionKind.closing]
  have hend : ¬s.kind.closing <:+: s.kind.opening ++ s.body ++ s.kind.closing.dropLast := by
    have hlast : s.kind.closing.getLast? = some '>' ∧ '>' ∉ s.kind.closing.dropLast := by
      cases s.kind <;> simp [SectionKind.closing]
    intro hwithin
    have hwithin := Chars.infix_of_infix_append hlast.1 hlast.2 hwithin
    -- No delimiter that opens a section has a part of the one that closes it, except a comment's.
    obtain ⟨kind, body, hbody⟩ := s
    cases kind with
    | comment =>
        obtain ⟨hgreater, harrow⟩ := hcomment rfl
        simp [SectionKind.closing, SectionKind.opening, List.infix_cons_iff, hgreater, harrow,
          not_infix_of_not_infix_hyphens hbody.1] at hwithin
    | cdata =>
        have hbody : ¬[']', ']', '>'] <:+: body := hbody
        simp [SectionKind.closing, SectionKind.opening, List.infix_cons_iff, hbody] at hwithin
    | instruction =>
        have hbody : ¬['?', '>'] <:+: '?' :: body := hbody
        simp [SectionKind.closing, SectionKind.opening, List.infix_cons_iff, hbody] at hwithin
  have hcut := Chars.cutAround_of_not_infix hne hend rest
  rw [chars, ← List.append_assoc]
  exact Chars.through_of_cutAround hne hcut

/-- What is left of a section when prefixes are removed. -/
theorem unprefixedChars_chars (s : Section) (rest : List Char) :
    unprefixedChars (s.chars ++ rest) = s.cut.1 ++ unprefixedChars (s.cut.2 ++ rest) := by
  have hsection : unprefixedChars (s.chars ++ rest) =
      (through s.kind.closing (s.chars ++ rest)).1 ++
        unprefixedChars (through s.kind.closing (s.chars ++ rest)).2 := by
    have hend := s.verbatimEnd?_chars rest
    obtain ⟨behind, hbehind⟩ : ∃ behind, s.chars ++ rest = '<' :: behind := by
      unfold chars
      cases s.kind <;> exact ⟨_, rfl⟩
    rw [hbehind] at hend ⊢
    exact unprefixedChars_section hend
  rw [hsection]
  obtain ⟨kind, body, hbody⟩ := s
  unfold cut
  split
  · next more hkind hstart =>
    cases hkind
    cases hstart
    simp [through, chars, SectionKind.opening, SectionKind.closing]
  · next more hkind hstart =>
    cases hkind
    cases hstart
    simp [through, chars, SectionKind.opening, SectionKind.closing]
  · next hgreater harrow =>
    dsimp only at hgreater harrow
    rw [through_chars ?_ rest]
    · rfl
    rintro rfl
    constructor
    · rintro ⟨more, hmore⟩
      exact hgreater more rfl hmore.symm
    · rintro ⟨more, hmore⟩
      exact harrow more rfl hmore.symm

/-- A section that hides its tags is copied as a whole. -/
theorem unprefixedChars_chars_of_hides {s : Section} (h : s.Hides) (rest : List Char) :
    unprefixedChars (s.chars ++ rest) = s.chars ++ unprefixedChars rest := by
  by_cases hcomment : s.kind = .comment
  · obtain ⟨kind, body, hbody⟩ := s
    cases hcomment
    exact unprefixedChars_comment hbody.1 (h rfl) rest
  · have hcut : s.cut = (s.chars, []) := by
      unfold cut
      split
      · next hkind _ => exact absurd hkind hcomment
      · next hkind _ => exact absurd hkind hcomment
      · rfl
    rw [unprefixedChars_chars, hcut, List.nil_append]

end Section

/-! ## Tags and text -/

/-- Whether all quotes of a text are closed, and none of the delimiters stands outside of them. -/
inductive Encloses (delimiters : List Char) : List Char → Prop
  | nil : Encloses delimiters []
  | plain {c : Char} {rest : List Char} (hdelimiter : c ∉ delimiters)
      (hquote : ¬(c = '"' ∨ c = '\'')) (hrest : Encloses delimiters rest) :
      Encloses delimiters (c :: rest)
  | quoted {quote : Char} {value rest : List Char} (hquote : quote = '"' ∨ quote = '\'')
      (hvalue : quote ∉ value) (hrest : Encloses delimiters rest) :
      Encloses delimiters (quote :: (value ++ [quote]) ++ rest)

namespace Encloses

variable {delimiters front rest : List Char}

theorem append (hfront : Encloses delimiters front) (hrest : Encloses delimiters rest) :
    Encloses delimiters (front ++ rest) := by
  induction hfront with
  | nil => exact hrest
  | plain hdelimiter hquote _ ih => exact .plain hdelimiter hquote ih
  | quoted hquote hvalue _ ih =>
      rw [List.append_assoc]
      exact .quoted hquote hvalue ih

/-- A text without quotes and delimiters. -/
theorem of_all {cs : List Char}
    (h : cs.all (fun c => !delimiters.contains c && c != '"' && c != '\'') = true) :
    Encloses delimiters cs := by
  induction cs with
  | nil => exact .nil
  | cons c cs ih =>
      rw [List.all_cons, Bool.and_eq_true] at h
      obtain ⟨hc, hcs⟩ := h
      obtain ⟨⟨hdelimiter, hdouble⟩, hsingle⟩ : (c ∉ delimiters ∧ c ≠ '"') ∧ c ≠ '\'' := by
        simpa using hc
      exact .plain hdelimiter (not_or.2 ⟨hdouble, hsingle⟩) (ih hcs)

/-- A delimiter does not stand in front. -/
theorem head?_ne {cs : List Char} (h : Encloses delimiters cs) {c : Char} (hc : c ∈ delimiters)
    (hquote : ¬(c = '"' ∨ c = '\'')) : cs.head? ≠ some c := by
  rintro hhead
  cases h with
  | nil => cases hhead
  | plain hdelimiter _ _ =>
      cases hhead
      exact hdelimiter hc
  | quoted hquote' _ _ =>
      cases hhead
      exact hquote hquote'

end Encloses

/-- Texts that are made of complete tags and of text between them. -/
inductive IsTagsAndText : List Char → Prop
  | nil : IsTagsAndText []
  | text {front rest : List Char} (hfront : '<' ∉ front) (hrest : IsTagsAndText rest) :
      IsTagsAndText (front ++ rest)
  /-- What starts with `<!` or `<?` is no tag. -/
  | tag {inside rest : List Char} (hinside : Encloses ['>'] inside)
      (hbang : inside.head? ≠ some '!') (hmark : inside.head? ≠ some '?')
      (hrest : IsTagsAndText rest) : IsTagsAndText ('<' :: inside ++ '>' :: rest)

/-- A tag does not end inside. -/
theorem Encloses.isInside {cs : List Char} (h : Encloses ['>'] cs) : Written.IsInside cs := by
  induction h with
  | nil => exact .nil
  | plain hdelimiter hquote _ ih =>
      exact (Written.IsInside.singleton (mt List.mem_singleton.2 hdelimiter) hquote).append ih
  | quoted hquote hvalue _ ih => exact (Written.IsInside.quoted hquote hvalue).append ih

/-- Complete tags and text end between two pieces. -/
theorem IsTagsAndText.endsPiece_eq {cs : List Char} (h : IsTagsAndText cs) :
    endsPiece cs = true := by
  induction h with
  | nil => rw [endsPiece]
  | @text front rest hfront _ ih =>
      induction front with
      | nil => exact ih
      | cons c front ihfront =>
          obtain ⟨hc, hfront⟩ := not_or.1 (mt List.mem_cons.2 hfront)
          rw [List.cons_append, endsPiece_text (Ne.symm hc)]
          exact ihfront hfront
  | @tag inside rest hinside hbang hmark _ ih =>
      have hnone : verbatimEnd? ('<' :: (inside ++ '>' :: rest)) = none := by
        cases inside with
        | nil => exact Written.verbatimEnd?_eq_none (by decide) (by decide) _
        | cons c inside =>
            exact Written.verbatimEnd?_eq_none (fun hc => hbang (congrArg some hc))
              (fun hc => hmark (congrArg some hc)) _
      have hcut : cutTag none (inside ++ '>' :: rest) = some (inside, rest) := by
        rw [hinside.isInside, cutTag, if_pos rfl]
        simp
      rw [List.cons_append, endsPiece_tag hnone, hcut]
      exact ih

/-- A tag with a quoted `>` in it, and text with a quote behind it. -/
theorem isTagsAndText_quoted : IsTagsAndText "<f:Filter a='>'>it's".toList := by
  have hname : Encloses ['>'] "f:Filter a=".toList := .of_all (by decide +kernel)
  have hvalue : Encloses ['>'] ('\'' :: (['>'] ++ ['\'']) ++ []) :=
    .quoted (.inr rfl) (by decide) .nil
  have htext : IsTagsAndText ("it's".toList ++ []) := .text (by decide +kernel) .nil
  exact .tag (hname.append hvalue) (by decide) (by decide) htext

/-! ## Between tags -/

/-- Behind complete tags and text, a section is copied up to the first place that looks like its
end, and what follows is treated as if it stood alone.  So a section that hides its tags is copied
as a whole. -/
theorem unprefixed_section {front : String} (hfront : IsTagsAndText front.toList) (s : Section)
    (rest : String) :
    unprefixed (front ++ s.written ++ rest) =
        unprefixed front ++ s.copied ++ unprefixed (s.left ++ rest) ∧
      s.copied ++ s.left = s.written ∧
      (s.Hides → unprefixed (front ++ s.written ++ rest) =
        unprefixed front ++ s.written ++ unprefixed rest) := by
  have hdivided : unprefixedChars (front.toList ++ (s.chars ++ rest.toList)) =
      unprefixedChars front.toList ++ unprefixedChars (s.chars ++ rest.toList) :=
    unprefixedChars_append hfront.endsPiece_eq _
  have htext : unprefixed (front ++ s.written ++ rest) =
      String.ofList (unprefixedChars front.toList ++ unprefixedChars (s.chars ++ rest.toList)) := by
    simp [unprefixed, Section.written, hdivided]
  refine ⟨?_, ?_, fun hhides => ?_⟩
  · rw [htext, s.unprefixedChars_chars]
    simp [unprefixed, Section.copied, Section.left, String.append_assoc]
  · rw [Section.copied, Section.left, ← String.ofList_append, s.cut_append, Section.written]
  · rw [htext, Section.unprefixedChars_chars_of_hides hhides]
    simp [unprefixed, Section.written, String.append_assoc]

/-- A comment with an unfinished tag and an open quote in it. -/
theorem unprefixed_section_unfinished_tag :
    unprefixed ("<f:Filter a='>'>it's" ++ "<!-- <o:a b='-->" ++ "<f:And/></f:Filter>") =
      "<Filter a='>'>it's" ++ "<!-- <o:a b='-->" ++ "<And/></Filter>" := by
  have h := (unprefixed_section isTagsAndText_quoted
    ⟨.comment, [' ', '<', 'o', ':', 'a', ' ', 'b', '=', '\''], by decide⟩
    "<f:And/></f:Filter>").2.2 (fun _ _ => by decide)
  have hfront : unprefixed "<f:Filter a='>'>it's" = "<Filter a='>'>it's" := by decide +kernel
  have hrest : unprefixed "<f:And/></f:Filter>" = "<And/></Filter>" := by decide +kernel
  rw [hfront, hrest] at h
  exact h

/-- A comment whose body starts with `>` does not hide the tag in it, whose open quote takes all
that follows. -/
theorem unprefixed_greater_in_comment :
    IsTagsAndText "<f:Filter>".toList ∧
      SectionKind.comment.IsBody ['>', '<', 'a', ' ', 'b', '=', '\''] ∧
      unprefixed ("<f:Filter>" ++ "<!--><a b='-->" ++ "<f:FeatureId fid='r.1'/></f:Filter>") ≠
        unprefixed "<f:Filter>" ++ "<!--><a b='-->" ++
          unprefixed "<f:FeatureId fid='r.1'/></f:Filter>" := by
  refine ⟨?_, by decide, by decide +kernel⟩
  have hinside : Encloses ['>'] "f:Filter".toList := .of_all (by decide +kernel)
  exact .tag hinside (by decide) (by decide) .nil

end FilterEncoding.Xml
