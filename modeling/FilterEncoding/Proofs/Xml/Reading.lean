import FilterEncoding.Proofs.Xml.Alike
import FilterEncoding.Proofs.Xml.Declaration
import FilterEncoding.Proofs.Xml.Unprefixed

/-!
# Reading a document with a comment in it

A document is read in two parts, with a comment between them or without.  The readings are alike if
the text in front of the element that is open there is not read from it, is complete already, or
goes on in neither of them.

* `Xml.reading?` — what is read of the front part of a document.
* `Xml.exists_alike_comment` — the reading of a document with a comment in it.
-/

namespace FilterEncoding.Xml

open Node (outline outlines isTextName leadingText withText)

/-- What is read of a text that is a document or the front part of one. -/
def reading? (cs : List Char) : Option Reading := do
  let body ← dropDeclaration? cs
  let ss ← segments body
  ss.foldlM Reading.step? Reading.start

theorem document?_ofList (cs : List Char) : document? (String.ofList cs) =
    if cs.all isAllowed then (reading? cs).bind Reading.finish? else none := by
  unfold document? reading?
  simp only [String.toList_ofList, Option.bind_eq_bind, Option.bind_assoc]

/-! ## Text in two parts -/

theorem data?_reference {cs : List Char} {cut : List Char × List Char}
    (h : Chars.cutFirst ';' cs = some cut) : data? ('&' :: cs) =
      (referent? cut.1).bind fun c => (data? cut.2).map (.reference c :: ·) := by
  rw [data?, if_pos rfl]
  split
  · next hnone =>
    rw [h] at hnone
    cases hnone
  · next name rest hcut =>
    rw [h] at hcut
    cases hcut
    cases referent? name with
    | none => rfl
    | some c => cases data? rest <;> rfl

theorem data?_unclosed {cs : List Char} (h : Chars.cutFirst ';' cs = none) :
    data? ('&' :: cs) = none := by
  rw [data?, if_pos rfl]
  split
  · rfl
  · next hcut =>
    rw [h] at hcut
    cases hcut

theorem data?_literal {c : Char} (hc : c ≠ '&') (cs : List Char) :
    data? (c :: cs) = (data? cs).map (.literal c :: ·) := by
  rw [data?, if_neg hc]

/-- References do not go on from text that has been read to its end. -/
theorem data?_append {cs : List Char} {data : List Datum} (h : data? cs = some data)
    (more : List Char) : data? (cs ++ more) = (data? more).map (data ++ ·) := by
  induction cs using data?.induct generalizing data with
  | case1 =>
      rw [data?] at h
      cases h
      simp
  | case2 cs hcut =>
      rw [data?_unclosed hcut] at h
      cases h
  | case3 cs name rest hcut ih =>
      rw [data?_reference hcut] at h
      obtain ⟨c, hc, h⟩ := Option.bind_eq_some_iff.1 h
      obtain ⟨tail, htail, rfl⟩ := Option.map_eq_some_iff.1 h
      rw [List.cons_append, data?_reference (cutFirst_append hcut more)]
      dsimp only at hc htail ⊢
      rw [hc, Option.bind_some, ih htail, Option.map_map]
      rfl
  | case4 c cs hc ih =>
      rw [data?_literal hc] at h
      obtain ⟨tail, htail, rfl⟩ := Option.map_eq_some_iff.1 h
      rw [List.cons_append, data?_literal hc, ih htail, Option.map_map]
      rfl

/-- Text that goes on in text is text. -/
theorem exists_text?_of_append {raw more : List Char} {value value' : String}
    (hraw : text? raw = some value) (happend : text? (raw ++ more) = some value') :
    ∃ value'', text? more = some value'' := by
  obtain ⟨-, hraw⟩ := Option.ite_none_left_eq_some.1 hraw
  obtain ⟨data, hdata, -⟩ := Option.map_eq_some_iff.1 hraw
  obtain ⟨hplain, happend⟩ := Option.ite_none_left_eq_some.1 happend
  obtain ⟨data', hdata', -⟩ := Option.map_eq_some_iff.1 happend
  rw [data?_append hdata] at hdata'
  obtain ⟨data'', hdata'', -⟩ := Option.map_eq_some_iff.1 hdata'
  refine ⟨String.ofList (textOf false data''), ?_⟩
  rw [text?, if_neg, hdata'']
  · rfl
  · rw [Chars.occurs_iff_infix] at hplain ⊢
    exact fun hwithin => hplain (hwithin.trans (List.suffix_append raw more).isInfix)

/-! ## Reading on -/

theorem foldlM_of_foldlM {ss tail : List Segment} {r₀ r : Reading}
    (h : ss.foldlM Reading.step? r₀ = some r) :
    (ss ++ tail).foldlM Reading.step? r₀ = tail.foldlM Reading.step? r := by
  rw [List.foldlM_append, Option.bind_eq_bind, h, Option.bind_some]

theorem foldlM_of_step? {s : Segment} {ss : List Segment} {r r' : Reading}
    (h : r.step? s = some r') :
    (s :: ss).foldlM Reading.step? r = ss.foldlM Reading.step? r' := by
  rw [List.foldlM_cons, Option.bind_eq_bind, h, Option.bind_some]

/-- Content with the same elements, and with the same text in front if that is complete. -/
structure SameBut (content content' : List Node) : Prop where
  elements : outlines content = outlines content'
  front : (∃ n ∈ content, n.isText = false) → leadingText content.reverse =
    leadingText content'.reverse ∧ ∃ n ∈ content', n.isText = false

theorem sameBut_withText (value : String) (content : List Node) :
    SameBut content (withText value content) where
  elements := (Node.outlines_withText value content).symm
  front h := ⟨(Node.leadingText_withText h).symm, Node.exists_not_isText_withText.2 h⟩

theorem SameBut.refl (content : List Node) : SameBut content content where
  elements := rfl
  front h := ⟨rfl, h⟩

theorem sameBut_push {n : Node} (helement : n.isElement = false) (htext : n.isText = false)
    (content : List Node) : SameBut content (n :: content) where
  elements := by simp [outlines, helement]
  front _ := ⟨by rw [List.reverse_cons, Node.leadingText_concat htext],
    n, List.mem_cons_self, htext⟩

theorem SameBut.trans {a b c : List Node} (hab : SameBut a b) (hbc : SameBut b c) :
    SameBut a c where
  elements := hab.elements.trans hbc.elements
  front h := by
    obtain ⟨htext, hb⟩ := hab.front h
    obtain ⟨htext', hc⟩ := hbc.front hb
    exact ⟨htext.trans htext', hc⟩

theorem SameBut.symm_withText (value : String) (content : List Node) :
    SameBut (withText value content) content where
  elements := Node.outlines_withText value content
  front h := by
    have h := Node.exists_not_isText_withText.1 h
    exact ⟨Node.leadingText_withText h, h⟩

theorem step?_text {r : Reading} {e : OpenElement} {es : List OpenElement}
    (hopen : r.open? = e :: es) (raw : List Char) : r.step? (.text raw) =
      (text? raw).map fun value =>
        { r with open? := { e with content := withText value e.content } :: es } := by
  obtain ⟨open?, root⟩ := r
  cases hopen
  rw [Reading.step?, if_neg (by simp)]
  cases text? raw <;> rfl

/-- Text that goes on changes the content of the innermost element only. -/
theorem exists_sameBut_text {raw more : List Char} {r₀ r q : Reading} {e : OpenElement}
    {es : List OpenElement} (hr : r₀.step? (.text raw) = some r) (hopen : r.open? = e :: es)
    (hq : r₀.step? (.text (raw ++ more)) = some q) :
    ∃ value content, text? more = some value ∧ SameBut e.content content ∧
      q = { r with open? := { e with content } :: es } := by
  cases hopen₀ : r₀.open? with
  | nil =>
      rw [Reading.step?, hopen₀] at hr
      obtain ⟨-, heq⟩ := Option.ite_none_right_eq_some.1 hr
      cases heq
      rw [hopen₀] at hopen
      cases hopen
  | cons e₀ es₀ =>
      rw [step?_text hopen₀] at hr hq
      obtain ⟨value, hvalue, rfl⟩ := Option.map_eq_some_iff.1 hr
      obtain ⟨value', hvalue', rfl⟩ := Option.map_eq_some_iff.1 hq
      cases hopen
      obtain ⟨value'', hvalue''⟩ := exists_text?_of_append hvalue hvalue'
      exact ⟨value'', _, hvalue'', (SameBut.symm_withText value e₀.content).trans
        (sameBut_withText value' e₀.content), rfl⟩

/-- So does more text behind any segments. -/
theorem exists_sameBut_appendText {ss : List Segment} {more : List Char} {r₀ r q : Reading}
    {e : OpenElement} {es : List OpenElement} (hr : ss.foldlM Reading.step? r₀ = some r)
    (hopen : r.open? = e :: es) (hq : (appendText more ss).foldlM Reading.step? r₀ = some q) :
    ∃ value content, text? more = some value ∧ SameBut e.content content ∧
      q = { r with open? := { e with content } :: es } := by
  induction ss generalizing r₀ with
  | nil =>
      cases hr
      rw [appendText, List.foldlM_cons, Option.bind_eq_bind, step?_text hopen,
        Option.bind_eq_some_iff] at hq
      obtain ⟨q', hq', hq⟩ := hq
      cases hq
      obtain ⟨value, hvalue, rfl⟩ := Option.map_eq_some_iff.1 hq'
      exact ⟨value, _, hvalue, sameBut_withText value e.content, rfl⟩
  | cons s ss ih =>
      rw [List.foldlM_cons, Option.bind_eq_bind, Option.bind_eq_some_iff] at hr
      obtain ⟨middle, hmiddle, hr⟩ := hr
      -- The last segment goes on if it is text; all others are read as before.
      rcases appendText_cons_cases more s ss with happend | ⟨raw, rfl, rfl⟩
      · rw [happend, foldlM_of_step? hmiddle] at hq
        exact ih hr hq
      · cases hr
        rw [appendText, List.foldlM_cons, Option.bind_eq_bind, Option.bind_eq_some_iff] at hq
        obtain ⟨q', hq', hq⟩ := hq
        cases hq
        exact exists_sameBut_text hmiddle hopen hq'

/-- Where the text of an element is not read, or is complete, more content that is not an element
makes no difference. -/
theorem SameBut.alike {e : OpenElement} {content content' : List Node}
    (h : SameBut e.content content) (h' : SameBut e.content content')
    (hfront : isTextName e.name.base = false ∨ e.HasFront) :
    OpenElement.Alike { e with content } { e with content := content' } ∧
      OpenElement.Firm { e with content } { e with content := content' } := by
  have hcomplete : isTextName e.name.base = true → e.HasFront := fun htext =>
    hfront.resolve_left fun hname => by
      rw [hname] at htext
      cases htext
  refine ⟨⟨rfl, rfl, rfl, h.elements.symm.trans h'.elements, fun htext => ?_⟩, fun htext => ?_⟩
  · have hcomplete := hcomplete htext
    exact (h.front hcomplete).1.symm.trans (h'.front hcomplete).1
  · have hcomplete := hcomplete htext
    exact .inr ⟨(h.front hcomplete).2, (h'.front hcomplete).2⟩

/-! ## Reading past a comment -/

/-- Whether a text ends the text in front of it: it is empty or starts with markup, and not with a
CDATA section. -/
def EndsText (cs : List Char) : Prop :=
  StartsMarkup cs ∧ ¬"<![CDATA[".toList <+: cs

/-- Where a comment makes no difference: the text of the open element is not read, or is complete,
or ends there. -/
def Harmless (e : OpenElement) (rest : List Char) : Prop :=
  isTextName e.name.base = false ∨ e.HasFront ∨ EndsText rest

theorem not_cdata_of_endsText {cs : List Char} (h : EndsText cs) {s : Segment}
    {ss : List Segment} (hs : segments cs = some (s :: ss)) :
    s.isText = false ∧ ∀ body, s ≠ .cdata body := by
  obtain ⟨rfl | ⟨behind, rfl⟩, hcdata⟩ := h
  · rw [segments] at hs
    cases hs
  · obtain ⟨rest, hsegment⟩ := exists_segment?_of_segments hs
    obtain ⟨written, hmarkup, -⟩ := exists_isMarkup hsegment
    refine ⟨hmarkup.notText, ?_⟩
    rintro body rfl
    exact hcdata (prefix_of_segment?_cdata hsegment)

theorem not_infix_of_isCommentBody {body : List Char} (h : isCommentBody body = true) :
    ¬['-', '-'] <:+: body := by
  obtain ⟨hoccurs, -⟩ := (Bool.and_eq_true _ _).mp h
  rw [Bool.not_eq_true', ← Bool.not_eq_true, Chars.occurs_iff_infix] at hoccurs
  simpa using hoccurs

/-- The front part of a document, in which an element is open. -/
theorem exists_segments_of_reading? {cs : List Char} {r : Reading} {e : OpenElement}
    {es : List OpenElement} (hr : reading? cs = some r) (hopen : r.open? = e :: es) :
    ∃ front ss, segments front = some ss ∧ ss.foldlM Reading.step? Reading.start = some r ∧
      ∀ rest, reading? (cs ++ rest) =
        (segments (front ++ rest)).bind (·.foldlM Reading.step? Reading.start) := by
  obtain ⟨front, hfront, hr⟩ := Option.bind_eq_some_iff.1 hr
  obtain ⟨ss, hss, hr⟩ := Option.bind_eq_some_iff.1 hr
  refine ⟨front, ss, hss, hr, fun rest => ?_⟩
  -- Nothing is open in front of the first segment.
  have hne : front ≠ [] := by
    rintro rfl
    rw [segments] at hss
    cases hss
    cases hr
    cases hopen
  rw [reading?, dropDeclaration?_append hfront hne hss rest]
  rfl

/-- Elements that are open stay alike under a comment. -/
theorem alike_push {n : Node} (helement : n.isElement = false) (htext : n.isText = false)
    (e : OpenElement) : e.Alike { e with content := n :: e.content } where
  name := rfl
  attributes := rfl
  scope := rfl
  elements := by simp [outlines, helement]
  text _ := by rw [List.reverse_cons, Node.leadingText_concat htext]

theorem alike_cons {e e' : OpenElement} (h : e.Alike e') (es : List OpenElement)
    (root : Option Node) : Reading.Alike ⟨e :: es, root⟩ ⟨e' :: es, root⟩ where
  elements := .cons h (List.forall₂_same.2 fun e _ => .refl e)
  root := rfl

theorem firm_cons {e e' : OpenElement} (h : e.Firm e') (es : List OpenElement)
    (root : Option Node) : Reading.Firm ⟨e :: es, root⟩ ⟨e' :: es, root⟩ := by
  intro _ he _ he'
  cases he
  cases he'
  exact h

/-- What follows a comment is read as it is without. -/
theorem exists_alike_rest {rest : List Char} {ss : List Segment} {r r' q : Reading}
    (halike : r.Alike r') (hfirm : r.Firm r' ∨ EndsText rest) (hss : segments rest = some ss)
    (hq : ss.foldlM Reading.step? r = some q) :
    ∃ q', ss.foldlM Reading.step? r' = some q' ∧ q.Alike q' := by
  rcases hfirm with hfirm | hends
  · exact halike.run hfirm hq
  · -- Markup comes first, after which the readings are firm.
    cases ss with
    | nil =>
        cases hq
        exact ⟨r', rfl, halike⟩
    | cons s ss =>
        obtain ⟨htext, hcdata⟩ := not_cdata_of_endsText hends hss
        rw [List.foldlM_cons, Option.bind_eq_bind, Option.bind_eq_some_iff] at hq
        obtain ⟨middle, hmiddle, hq⟩ := hq
        obtain ⟨middle', hmiddle', halike, hfirm⟩ := halike.step_markup htext hcdata hmiddle
        obtain ⟨q', hq', hresult⟩ := halike.run hfirm hq
        refine ⟨q', ?_, hresult⟩
        rw [List.foldlM_cons, Option.bind_eq_bind, hmiddle', Option.bind_some, hq']

/-! ## A comment -/

section Comment

variable {front rest body : List Char} {ss : List Segment} {e : OpenElement}
  {es : List OpenElement} {root : Option Node}

/-- What a comment adds to the element it stands in. -/
theorem step?_comment (hbody : isCommentBody body = true) :
    Reading.step? ⟨e :: es, root⟩ (.comment body) =
      some ⟨{ e with content := .comment (String.ofList body) :: e.content } :: es, root⟩ :=
  if_pos hbody

/-- A comment is read between what stands in front of it and what follows. -/
theorem bind_segments_comment (hss : segments front = some ss)
    (hrun : ss.foldlM Reading.step? Reading.start = some ⟨e :: es, root⟩)
    (hbody : isCommentBody body = true) :
    ((segments (front ++ (commentChars body ++ rest))).bind
      (·.foldlM Reading.step? Reading.start)) =
      (segments rest).bind (·.foldlM Reading.step?
        ⟨{ e with content := .comment (String.ofList body) :: e.content } :: es, root⟩) := by
  have hmarkup := isMarkup_commentChars (not_infix_of_isCommentBody hbody)
  have hcomment : StartsMarkup (commentChars body ++ rest) := .inr ⟨_, rfl⟩
  rw [segments_append hss hcomment, segments_markup hmarkup, Option.map_map, Option.bind_map]
  congr 1
  funext tail
  rw [Function.comp, Function.comp, foldlM_of_foldlM hrun, foldlM_of_step? (step?_comment hbody)]

/-- A comment between two segments. -/
theorem exists_alike_comment_between (hss : segments front = some ss)
    (hrun : ss.foldlM Reading.step? Reading.start = some ⟨e :: es, root⟩)
    (hharmless : Harmless e rest) (hstarts : StartsMarkup rest) (value : String) {q : Reading}
    (hq : (segments (front ++ rest)).bind (·.foldlM Reading.step? Reading.start) = some q) :
    ∃ q', (segments rest).bind (·.foldlM Reading.step?
        ⟨{ e with content := .comment value :: e.content } :: es, root⟩) = some q' ∧
      q.Alike q' := by
  rw [segments_append hss hstarts] at hq
  obtain ⟨_, hall, hq⟩ := Option.bind_eq_some_iff.1 hq
  obtain ⟨tail, htail, rfl⟩ := Option.map_eq_some_iff.1 hall
  rw [foldlM_of_foldlM hrun] at hq
  have hfirm : Reading.Firm ⟨e :: es, root⟩
      ⟨{ e with content := .comment value :: e.content } :: es, root⟩ ∨ EndsText rest := by
    rcases or_assoc.2 hharmless with hfront | hends
    · have hpush : SameBut e.content (.comment value :: e.content) := sameBut_push rfl rfl e.content
      exact .inl (firm_cons ((SameBut.refl e.content).alike hpush hfront).2 es root)
    · exact .inr hends
  rw [htail, Option.bind_some]
  exact exists_alike_rest (alike_cons (alike_push rfl rfl e) es root) hfirm htail hq

/-- A comment that divides a run of text. -/
theorem exists_alike_comment_within (hss : segments front = some ss)
    (hrun : ss.foldlM Reading.step? Reading.start = some ⟨e :: es, root⟩)
    (hfront : isTextName e.name.base = false ∨ e.HasFront) (hstarts : ¬StartsMarkup rest)
    (value : String) {q : Reading}
    (hq : (segments (front ++ rest)).bind (·.foldlM Reading.step? Reading.start) = some q) :
    ∃ q', (segments rest).bind (·.foldlM Reading.step?
        ⟨{ e with content := .comment value :: e.content } :: es, root⟩) = some q' ∧
      q.Alike q' := by
  obtain ⟨more, rest, rfl, hne, hmore, hrest⟩ := exists_text_of_not_startsMarkup hstarts
  rw [segments_append_text hss hne hmore hrest] at hq
  obtain ⟨_, hall, hq⟩ := Option.bind_eq_some_iff.1 hq
  obtain ⟨tail, htail, rfl⟩ := Option.map_eq_some_iff.1 hall
  rw [List.foldlM_append, Option.bind_eq_bind, Option.bind_eq_some_iff] at hq
  obtain ⟨middle, hmiddle, hq⟩ := hq
  obtain ⟨text, content, htext, hsame, rfl⟩ := exists_sameBut_appendText hrun rfl hmiddle
  have hstep : Reading.step? ⟨{ e with content := .comment value :: e.content } :: es, root⟩
      (.text more) = some
        ⟨{ e with content := withText text (.comment value :: e.content) } :: es, root⟩ := by
    rw [step?_text rfl, htext]
    rfl
  have hpush : SameBut e.content (.comment value :: e.content) := sameBut_push rfl rfl e.content
  obtain ⟨halike, hfirm⟩ := hsame.alike (hpush.trans (sameBut_withText text _)) hfront
  obtain ⟨q', hq', hresult⟩ := (alike_cons halike es root).run (firm_cons hfirm es root) hq
  refine ⟨q', ?_, hresult⟩
  rw [segments_text hne hmore hrest, htail, Option.map_some, Option.bind_some,
    foldlM_of_step? hstep, hq']

end Comment

/-- A document with a comment is read as it is without. -/
theorem exists_alike_comment {cs rest body : List Char} {r q : Reading} {e : OpenElement}
    {es : List OpenElement} (hr : reading? cs = some r) (hopen : r.open? = e :: es)
    (hbody : isCommentBody body = true) (hharmless : Harmless e rest)
    (hq : reading? (cs ++ rest) = some q) :
    ∃ q', reading? (cs ++ (commentChars body ++ rest)) = some q' ∧ q.Alike q' := by
  obtain ⟨front, ss, hss, hrun, hreading⟩ := exists_segments_of_reading? hr hopen
  obtain ⟨open?, root⟩ := r
  cases hopen
  rw [hreading] at hq ⊢
  rw [bind_segments_comment hss hrun hbody]
  by_cases hstarts : StartsMarkup rest
  · exact exists_alike_comment_between hss hrun hharmless hstarts _ hq
  · have hfront := (or_assoc.2 hharmless).resolve_right fun hends => hstarts hends.1
    exact exists_alike_comment_within hss hrun hfront hstarts _ hq

end FilterEncoding.Xml
