import FilterEncoding.FilterParameter
import FilterEncoding.Proofs.Xml.Written

/-!
# The documents of a filter parameter

A scan of a parameter crosses an element as a whole: behind the element it is at the place where it
was in front of it, and no parenthesis in between has ended the document.  So documents that are
written into a parameter are the documents that are found in it.

* `FilterParameter.Crosses` — texts that a scan crosses from one place to another.
* `FilterParameter.crosses_content` — the content of an element is crossed at its depth.
* `FilterParameter.documents_intercalate` — the documents of a parameter.
-/

namespace FilterEncoding.FilterParameter

open Xml.Written

/-- Whether a scan crosses a text that stands in front of `behind`, from the place `p` to the place
`q`, as a part of the current document. -/
def Crosses (p : Place) (cs behind : List Char) (q : Place) : Prop :=
  ∀ before, documentsFrom p before (cs ++ behind) = documentsFrom q (cs.reverse ++ before) behind

namespace Crosses

variable {p q r : Place} {cs ds behind : List Char}

theorem nil : Crosses p [] behind p := fun _ => rfl

theorem append (hcs : Crosses p cs (ds ++ behind) q) (hds : Crosses q ds behind r) :
    Crosses p (cs ++ ds) behind r := fun before => by
  rw [List.append_assoc, hcs, hds, List.reverse_append, List.append_assoc]

/-- One character is crossed if it does not end the document. -/
theorem step {c : Char} (h : ¬(c = ')' ∧ p.isOutside = true)) :
    Crosses p [c] behind (p.step c behind.head?) := fun before => by
  have hend : (c = ')' && p.isOutside) = false := by
    rw [Bool.and_eq_false_iff, decide_eq_false_iff_not]
    exact (Decidable.not_and_iff_not_or_not.1 h).imp_right Bool.eq_false_iff.2
  rw [List.singleton_append, documentsFrom, hend, if_neg Bool.false_ne_true]
  rfl

theorem cons {c : Char} (h : ¬(c = ')' ∧ p.isOutside = true))
    (hcs : Crosses (p.step c (cs ++ behind).head?) cs behind q) :
    Crosses p (c :: cs) behind q :=
  have hstep : Crosses p [c] (cs ++ behind) (p.step c (cs ++ behind).head?) := step h
  hstep.append hcs

end Crosses

namespace Place

/-- The place between tags at a depth of elements. -/
def between (depth : Int) : Place := ⟨none, depth, false⟩

/-- The place in a tag, outside quotes. -/
def tag (depth : Int) : Place := ⟨none, depth, true⟩

theorem step_quoted {p : Place} {q c : Char} (h : p.quote = some q) (hc : c ≠ q)
    (next : Option Char) : p.step c next = p := by
  rw [step, h]
  exact if_neg hc

theorem step_tag {c : Char} (h : c = '=' ∨ c ∉ reserved) (depth : Int) (next : Option Char) :
    (tag depth).step c next = tag depth := by
  rcases h with rfl | h
  · rfl
  · simp only [reserved, List.mem_cons, not_or] at h
    simp [step, tag, h]

theorem step_between {c : Char} {next : Option Char} (htag : c ≠ '<')
    (hslash : ¬(c = '/' ∧ next = some '>')) (depth : Int) :
    (between depth).step c next = between depth := by
  simp [step, between, htag, hslash]

theorem isOutside_between {depth : Int} (h : 0 < depth) : (between depth).isOutside = false := by
  simp [isOutside, between, Int.ne_of_gt h]

end Place

namespace Crosses

variable {behind : List Char} {depth : Int}

/-- Names and blanks are crossed. -/
theorem of_notMem_reserved {cs : List Char} (h : ∀ c ∈ cs, c ∉ reserved) :
    Crosses (.tag depth) cs behind (.tag depth) := by
  induction cs with
  | nil => exact nil
  | cons c cs ih =>
      obtain ⟨hc, hcs⟩ := List.forall_mem_cons.1 h
      refine cons (fun hend => hc (hend.1 ▸ by decide)) ?_
      rw [Place.step_tag (.inr hc)]
      exact ih hcs

/-- A value is crossed with the quotes around it, whatever is in it. -/
theorem quoted {q : Char} (hq : q = '"' ∨ q = '\'') {value : List Char} (h : q ∉ value) :
    Crosses (.tag depth) (q :: (value ++ [q])) behind (.tag depth) := by
  have hne : q ≠ ')' := by
    rcases hq with rfl | rfl <;> decide
  have hopen (next : Option Char) : (Place.tag depth).step q next = ⟨some q, depth, true⟩ := by
    simp [Place.step, Place.tag, hq.symm]
  have hclose (next : Option Char) :
      Place.step ⟨some q, depth, true⟩ q next = .tag depth := by
    simp [Place.step, Place.tag]
  have hvalue : Crosses ⟨some q, depth, true⟩ value ([q] ++ behind) ⟨some q, depth, true⟩ := by
    induction value with
    | nil => exact nil
    | cons c value ih =>
        obtain ⟨hc, hvalue⟩ := not_or.1 (mt List.mem_cons.2 h)
        refine cons (fun hend => absurd hend.2 Bool.false_ne_true) ?_
        rw [Place.step_quoted rfl (Ne.symm hc)]
        exact ih hvalue
  refine cons (fun hend => hne hend.1) ?_
  rw [hopen]
  refine hvalue.append ?_
  rw [← hclose behind.head?]
  exact step fun hend => hne hend.1

theorem composes (depth : Int) :
    Composes fun cs => ∀ behind, Crosses (.tag depth) cs behind (.tag depth) where
  append := fun hfront hrest behind => (hfront _).append (hrest behind)
  unreserved := fun h _ => of_notMem_reserved h
  equals := fun _ => cons (by simp) nil
  quoted := fun hquote _ hvalue _ => quoted hquote hvalue

theorem tagChars (t : Tag) : Crosses (.tag depth) t.chars behind (.tag depth) :=
  (composes depth).tag_chars t behind

theorem tagEnd : Crosses (.tag depth) ['>'] behind (.between depth) :=
  step (c := '>') (by simp)

/-- What a tag starts with starts neither an end tag nor a declaration, and does not end a tag. -/
theorem exists_head? (t : Tag) :
    ∃ c, c ≠ '/' ∧ c ≠ '!' ∧ c ≠ '>' ∧ ∀ rest, (t.chars ++ rest).head? = some c := by
  obtain ⟨c, cs, hcs, hc⟩ := t.exists_eq_cons
  have hne : ∀ d ∈ reserved, c ≠ d := fun d hd heq => hc (heq ▸ hd)
  exact ⟨c, hne '/' (by decide), hne '!' (by decide), hne '>' (by decide), fun rest => by
    rw [hcs, List.cons_append, List.head?_cons]⟩

/-- A start tag goes one element deeper. -/
theorem tagStart (t : Tag) {rest : List Char} {q : Place}
    (h : Crosses (.tag (depth + 1)) (t.chars ++ rest) behind q) :
    Crosses (.between depth) ('<' :: (t.chars ++ rest)) behind q := by
  obtain ⟨c, hslash, hbang, -, hhead⟩ := exists_head? t
  refine cons (by simp) ?_
  rw [List.append_assoc, hhead]
  simpa [Place.step, Place.between, Place.tag, Place.enterTag, hslash, hbang] using h

theorem startTag (t : Tag) :
    Crosses (.between depth) ('<' :: (t.chars ++ ['>'])) behind (.between (depth + 1)) :=
  tagStart t ((tagChars t).append tagEnd)

/-- An element that is closed in its start tag is crossed. -/
theorem closedTag (t : Tag) :
    Crosses (.between depth) ('<' :: (t.chars ++ ['/', '>'])) behind (.between depth) := by
  refine tagStart t ((tagChars t).append (cons (by simp) ?_))
  have hstep : (Place.tag (depth + 1)).step '/' (['>'] ++ behind).head? = .tag depth := by
    simp [Place.step, Place.tag]
  rw [hstep]
  exact tagEnd

/-- An end tag leaves one element. -/
theorem endTag (t : Tag) :
    Crosses (.between (depth + 1)) ('<' :: '/' :: (t.chars ++ ['>'])) behind (.between depth) := by
  obtain ⟨c, -, -, hend, hhead⟩ := exists_head? t
  have hstep : ((Place.between (depth + 1)).step '<' (some '/')).step '/' (some c) =
      .tag depth := by
    simp [Place.step, Place.between, Place.tag, Place.enterTag, hend]
  refine cons (by simp) (cons (by simp) ?_)
  rw [List.append_assoc, hhead]
  change Crosses (((Place.between (depth + 1)).step '<' (some '/')).step '/' (some c)) _ _ _
  rw [hstep]
  exact (tagChars t).append tagEnd

/-- Text in an element is crossed. -/
theorem text {raw : List Char} (hdepth : 0 < depth) (htag : '<' ∉ raw)
    (hslash : ¬['/', '>'] <:+: raw) (hbehind : behind.head? ≠ some '>') :
    Crosses (.between depth) raw behind (.between depth) := by
  induction raw with
  | nil => exact nil
  | cons c raw ih =>
      obtain ⟨hc, hraw⟩ := not_or.1 (mt List.mem_cons.2 htag)
      refine cons (fun hend => ?_) ?_
      · rw [Place.isOutside_between hdepth] at hend
        exact absurd hend.2 Bool.false_ne_true
      · rw [Place.step_between (Ne.symm hc)]
        · exact ih hraw fun hwithin => hslash (hwithin.trans (List.suffix_cons c raw).isInfix)
        · rintro ⟨rfl, hnext⟩
          cases raw with
          | nil => exact hbehind hnext
          | cons d raw =>
              obtain rfl := Option.some.inj hnext
              exact hslash ⟨[], raw, rfl⟩

/-- An element is crossed if its content is. -/
theorem element (t ending : Tag) {inner : List Char}
    (h : Crosses (.between (depth + 1)) inner (('<' :: '/' :: (ending.chars ++ ['>'])) ++ behind)
      (.between (depth + 1))) :
    Crosses (.between depth) ('<' :: (t.chars ++ ['>']) ++ (inner ++
      '<' :: '/' :: (ending.chars ++ ['>']))) behind (.between depth) :=
  (startTag t).append (h.append (endTag ending))

/-- The content of an element is crossed, element by element. -/
theorem content {d : Content} (htexts : ∀ raw ∈ d.texts, ¬['/', '>'] <:+: raw.chars)
    (hdepth : 0 < depth) (hbehind : behind.head? ≠ some '>') :
    Crosses (.between depth) d.chars behind (.between depth) := by
  induction d generalizing depth behind with
  | text raw =>
      exact text hdepth raw.noTag (htexts raw List.mem_cons_self) hbehind
  | closed front tag rest ih =>
      obtain ⟨hfront, hrest⟩ := List.forall_mem_cons.1 htexts
      have hchars : (Content.closed front tag rest).chars =
          front.chars ++ ('<' :: (tag.chars ++ ['/', '>']) ++ rest.chars) := by
        simp [Content.chars]
      rw [hchars]
      refine (text hdepth front.noTag hfront (by simp)).append ?_
      exact (closedTag tag).append (ih hrest hdepth hbehind)
  | nested front tag inner endQualifier endGap rest ihinner ihrest =>
      obtain ⟨hfront, htexts⟩ := List.forall_mem_cons.1 htexts
      obtain ⟨hinner, hrest⟩ := List.forall_mem_append.1 htexts
      have hchars : (Content.nested front tag inner endQualifier endGap rest).chars =
          front.chars ++ ('<' :: (tag.chars ++ ['>']) ++ (inner.chars ++ '<' :: '/' ::
            ((tag.ending endQualifier endGap).chars ++ ['>'])) ++ rest.chars) := by
        simp [Content.chars]
      rw [hchars]
      refine (text hdepth front.noTag hfront (by simp)).append ?_
      refine (element tag _ (ihinner hinner (by omega) (by simp))).append ?_
      exact ihrest hrest hdepth hbehind

end Crosses

/-- Whether a document is one element. -/
def IsElement : Content → Prop
  | .text _ => False
  | .closed front _ rest => front.chars = [] ∧ rest.chars = []
  | .nested front _ _ _ _ rest => front.chars = [] ∧ rest.chars = []

/-- A document whose end is found: one element, with no text that looks like the end of a tag. -/
structure IsDocument (d : Content) : Prop where
  isElement : IsElement d
  noTagEnd : ∀ raw ∈ d.texts, ¬['/', '>'] <:+: raw.chars

namespace IsDocument

variable {d : Content} (h : IsDocument d)

include h

/-- A document is crossed. -/
theorem crosses (behind : List Char) : Crosses .outside d.chars behind .outside := by
  obtain ⟨helement, htexts⟩ := h
  cases d with
  | text raw => exact absurd helement id
  | closed front tag rest =>
      have hchars : (Content.closed front tag rest).chars = '<' :: (tag.chars ++ ['/', '>']) := by
        simp [Content.chars, helement.1, helement.2]
      rw [hchars]
      exact Crosses.closedTag tag
  | nested front tag inner endQualifier endGap rest =>
      have hchars : (Content.nested front tag inner endQualifier endGap rest).chars =
          '<' :: (tag.chars ++ ['>']) ++ (inner.chars ++
            '<' :: '/' :: ((tag.ending endQualifier endGap).chars ++ ['>'])) := by
        simp [Content.chars, helement.1, helement.2]
      have hinner : ∀ raw ∈ inner.texts, ¬['/', '>'] <:+: raw.chars := fun raw hraw =>
        htexts raw (List.mem_cons_of_mem front (List.mem_append_left _ hraw))
      rw [hchars]
      exact Crosses.element tag _ (Crosses.content hinner Int.one_pos (by simp))

/-- The first document of a parameter, and the ones behind it. -/
theorem documentsFrom_document (rest : List Char) :
    documentsFrom .outside [] ('(' :: (d.chars ++ ')' :: rest)) =
      d.chars :: if rest.head? = some '(' then documentsFrom .outside [] rest else [] := by
  have hopen : documentsFrom .outside [] ('(' :: (d.chars ++ ')' :: rest)) =
      documentsFrom .outside ['('] (d.chars ++ ')' :: rest) := by
    rw [documentsFrom]
    rfl
  have hclose : documentsFrom .outside (d.chars.reverse ++ ['(']) (')' :: rest) =
      (d.chars.reverse ++ ['(']).reverse.tail ::
        if rest.head? = some '(' then documentsFrom .outside [] rest else [] := by
    rw [documentsFrom]
    rfl
  rw [hopen, h.crosses, hclose, List.reverse_append, List.reverse_reverse]
  rfl

end IsDocument

theorem documentsFrom_intercalate {d : Content} {ds : List Content}
    (h : ∀ d' ∈ d :: ds, IsDocument d') :
    documentsFrom .outside []
        ('(' :: ([')', '('].intercalate ((d :: ds).map Content.chars) ++ [')'])) =
      (d :: ds).map Content.chars := by
  induction ds generalizing d with
  | nil =>
      obtain ⟨hd, -⟩ := List.forall_mem_cons.1 h
      rw [List.map_singleton, List.intercalate_singleton, hd.documentsFrom_document]
      rfl
  | cons d' ds ih =>
      obtain ⟨hd, hds⟩ := List.forall_mem_cons.1 h
      have hrest := ih hds
      rw [List.map_cons] at hrest
      rw [List.map_cons, List.map_cons, List.intercalate_cons_cons, List.append_assoc,
        List.append_assoc, List.cons_append, List.singleton_append, hd.documentsFrom_document,
        List.head?_cons, if_pos rfl, hrest]

/-- Documents that are written into a parameter, each in parentheses, are found in it. -/
theorem documents_intercalate {ds : List Content} (hne : ds ≠ []) (h : ∀ d ∈ ds, IsDocument d) :
    documents ("(" ++ ")(".intercalate (ds.map Content.written) ++ ")") =
      ds.map Content.written := by
  obtain ⟨d, ds, rfl⟩ := List.exists_cons_of_ne_nil hne
  have htext : ("(" ++ ")(".intercalate ((d :: ds).map Content.written) ++ ")").toList =
      '(' :: ([')', '('].intercalate ((d :: ds).map Content.chars) ++ [')']) := by
    have hwritten : String.toList ∘ Content.written = Content.chars :=
      funext fun d => String.toList_ofList
    rw [String.toList_append, String.toList_append, String.toList_intercalate, List.map_map,
      hwritten]
    rfl
  rw [documents, htext, List.head?_cons, if_pos rfl, documentsFrom_intercalate h, List.map_map]
  rfl

/-- A closed element with the end of a document in a value. -/
def closedDocument : Content :=
  .closed .none
    { name := ⟨none, ⟨"a".toList, by decide⟩⟩
      attributes := [{
        gap := .space
        separate := Blanks.space_ne_nil
        name := ⟨none, ⟨"p:b".toList, by decide⟩⟩
        before := .none
        after := .none
        quote := '"'
        isQuote := .inl rfl
        value := "é'/>)(</a>".toList
        noQuote := by decide }]
      gap := .space }
    (.text .none)

/-- An element with quotes, slashes and parentheses in its text, and another element in it. -/
def nestedDocument : Content :=
  .nested .none
    { name := ⟨none, ⟨"c".toList, by decide⟩⟩
      attributes := []
      gap := .none }
    (.closed ⟨")(> '/".toList, by decide⟩
      { name := ⟨some ⟨"p".toList, by decide⟩, ⟨"d".toList, by decide⟩⟩
        attributes := []
        gap := .none }
      (.text ⟨"/\")".toList, by decide⟩))
    none ⟨['\t'], List.all_eq_true.1 rfl⟩ (.text .none)

theorem documents_intercalate_closed_beside_nested :
    documents "(<a p:b=\"é'/>)(</a>\" />)(<c>)(> '/<p:d/>/\")</c\t>)(<a p:b=\"é'/>)(</a>\" />)" =
      ["<a p:b=\"é'/>)(</a>\" />", "<c>)(> '/<p:d/>/\")</c\t>", "<a p:b=\"é'/>)(</a>\" />"] := by
  have hclosed : IsDocument closedDocument := ⟨⟨rfl, rfl⟩, by decide +kernel⟩
  have hnested : IsDocument nestedDocument := ⟨⟨rfl, rfl⟩, by decide +kernel⟩
  have hdocuments : ∀ d ∈ [closedDocument, nestedDocument, closedDocument], IsDocument d := by
    simp [hclosed, hnested]
  have hclosedText : closedDocument.written = "<a p:b=\"é'/>)(</a>\" />" := by decide +kernel
  have hnestedText : nestedDocument.written = "<c>)(> '/<p:d/>/\")</c\t>" := by decide +kernel
  have h := documents_intercalate (List.cons_ne_nil _ _) hdocuments
  simp only [List.map_cons, List.map_nil, hclosedText, hnestedText] at h
  refine (congrArg documents ?_).trans h
  decide +kernel

end FilterEncoding.FilterParameter
