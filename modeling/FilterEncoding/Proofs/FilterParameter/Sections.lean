import FilterEncoding.Proofs.FilterParameter.Recovery
import FilterEncoding.Proofs.Xml.Sections

/-!
# Sections in the documents of a parameter

The scan of a parameter knows tags only.  It reads a section as a tag, in which quotes are followed
and tags count.  What starts with `<!` leaves the depth of elements as it is, but anything else that
starts with `<` counts as an element, and no end tag follows for a processing instruction.  So no
document is found with a processing instruction in it, and one with a comment or a CDATA section is
found when the scan leaves the section at the depth where it entered it.

* `FilterParameter.IsAt` — the place of the scan between two parts of a document.
* `FilterParameter.across?_section` — a section with closed quotes and without tags.
* `FilterParameter.isFound_section_iff` — when documents are found with a section in one of them.
-/

namespace FilterEncoding.FilterParameter

open Xml (Encloses Section SectionKind)

namespace Place

/-! ## Depth -/

/-- The same place, `k` elements deeper. -/
def deeper (p : Place) (k : Int) : Place :=
  { p with depth := p.depth + k }

theorem enterTag_deeper (p : Place) (k : Int) (next : Option Char) :
    (p.deeper k).enterTag next = (p.enterTag next).deeper k := by
  unfold enterTag
  split <;> simp [deeper] <;> omega

theorem step_deeper (p : Place) (k : Int) (c : Char) (next : Option Char) :
    (p.deeper k).step c next = (p.step c next).deeper k := by
  have hquote : (p.deeper k).quote = p.quote := rfl
  have htag : (p.deeper k).inTag = p.inTag := rfl
  rw [step, step, hquote, htag, enterTag_deeper]
  cases p.quote with
  | some q =>
      dsimp only
      split <;> rfl
  | none =>
      dsimp only
      split
      · rfl
      split
      · rfl
      split
      · simp [deeper]
        omega
      split <;> rfl

/-- A scan that starts deeper stays deeper, as long as it goes on. -/
theorem across?_deeper {p q r : Place} {k : Int} {next : Option Char} {cs : List Char}
    (hq : p.across? next cs = some q) (hr : (p.deeper k).across? next cs = some r) :
    r = q.deeper k := by
  induction cs generalizing p with
  | nil =>
      cases hq
      cases hr
      rfl
  | cons c cs ih =>
      rw [across?] at hq hr
      split at hq
      · cases hq
      split at hr
      · cases hr
      rw [step_deeper] at hr
      exact ih hq hr

/-- A document that is entered deeper ends deeper, so that its end is not found. -/
theorem not_isOutside_of_deeper {p q r : Place} {k : Int} {next : Option Char} {cs : List Char}
    (hk : k ≠ 0) (hq : p.across? next cs = some q) (houtside : q.isOutside = true)
    (hr : (p.deeper k).across? next cs = some r) : r.isOutside = false := by
  have hdepth : q.depth = 0 := by simpa using ((Bool.and_eq_true _ _).mp houtside).2
  rw [across?_deeper hq hr]
  simp [isOutside, deeper, hdepth, hk]

/-! ## Sections -/

theorem across?_cons {p : Place} {c : Char} (h : ¬(c = ')' ∧ p.isOutside = true))
    (next : Option Char) (cs : List Char) :
    p.across? next (c :: cs) = (p.step c (cs.head?.or next)).across? next cs := by
  rw [across?, if_neg (by simpa using h)]

/-- A text that ends a tag is crossed in the same way whatever follows. -/
theorem across?_tagEnd (p : Place) (next : Option Char) (cs : List Char) :
    p.across? next (cs ++ ['>']) = p.across? none (cs ++ ['>']) := by
  have hend (q : Place) : q.across? next ['>'] = q.across? none ['>'] := by
    simp [across?, step]
  rw [across?_append, across?_append]
  exact Option.bind_congr fun q _ => hend q

theorem isOutside_tag {depth : Int} (h : 0 < depth) : (tag depth).isOutside = false := by
  simp [isOutside, tag, Int.ne_of_gt h]

/-- A quoted value is crossed with its quotes, whatever is in it. -/
theorem across?_quoted {quote : Char} (hquote : quote = '"' ∨ quote = '\'') {value : List Char}
    (hvalue : quote ∉ value) {depth : Int} (hdepth : 0 < depth) (next : Option Char) :
    (tag depth).across? next (quote :: (value ++ [quote])) = some (tag depth) := by
  have hopen (next : Option Char) : (tag depth).step quote next = ⟨some quote, depth, true⟩ := by
    simp [step, tag, hquote.symm]
  have hclose (next : Option Char) :
      Place.step ⟨some quote, depth, true⟩ quote next = tag depth := by
    simp [step, tag]
  rw [across?_cons (by simp [isOutside_tag hdepth]), hopen]
  induction value with
  | nil => simp [across?, isOutside, hclose]
  | cons c value ih =>
      obtain ⟨hc, hvalue⟩ := not_or.1 (mt List.mem_cons.2 hvalue)
      rw [List.cons_append, across?_cons (by simp [isOutside]), step_quoted rfl (Ne.symm hc),
        ih hvalue]

/-- Inside a tag, quotes that are closed and text without brackets are crossed. -/
theorem across?_encloses {depth : Int} (hdepth : 0 < depth) {cs : List Char}
    (h : Encloses ['<', '>'] cs) {next : Option Char} (hnext : next ≠ some '>') :
    (tag depth).across? next cs = some (tag depth) := by
  induction h with
  | nil => rfl
  | @plain c rest hdelimiter hquote hrest ih =>
      have hhead : rest.head?.or next ≠ some '>' := by
        have hrest := hrest.head?_ne (c := '>') (by simp) (by simp)
        cases rest with
        | nil => exact hnext
        | cons d rest => exact hrest
      have hstep : (tag depth).step c (rest.head?.or next) = tag depth := by
        obtain ⟨hopen, hclose⟩ : c ≠ '<' ∧ c ≠ '>' := by simpa using hdelimiter
        simp [step, tag, not_or.1 hquote, hopen, hclose, hhead]
      rw [across?_cons (by simp [isOutside_tag hdepth]), hstep]
      exact ih
  | quoted hquote hvalue _ ih =>
      rw [across?_append, across?_quoted hquote hvalue hdepth]
      exact ih

/-- What stands in the brackets of a declaration or an instruction, up to its last character. -/
theorem across?_markup {c d : Char} {inside : List Char} {depth : Int}
    (hinside : Encloses ['<', '>'] (c :: inside)) (hc : c ≠ '/')
    (hd : d ∉ ['<', '>', '"', '\'', '/'])
    (hdepth : 0 < depth + if c = '!' then 0 else 1) (next : Option Char) :
    (between depth).across? next ('<' :: (c :: inside ++ [d, '>'])) =
      some (between (depth + if c = '!' then 0 else 1)) := by
  have hstart : (between depth).step '<' (some c) = tag (depth + if c = '!' then 0 else 1) := by
    by_cases hbang : c = '!'
    · simp [step, between, tag, enterTag, hbang]
    · simp [step, between, tag, enterTag, hbang, hc]
  simp only [List.mem_cons, List.not_mem_nil, or_false, not_or] at hd
  have hlast (depth : Int) : (tag depth).step d (some '>') = tag depth := by
    simp [step, tag, hd]
  have hclose (depth : Int) : (tag depth).step '>' next = between depth := by
    simp [step, tag, between]
  have hnext : ['>'].head?.or next = some '>' := rfl
  rw [across?_cons (by simp)]
  change ((between depth).step '<' (some c)).across? next (c :: inside ++ [d, '>']) = _
  rw [hstart, across?_append, across?_encloses hdepth hinside (by simpa using hd.2.1),
    Option.bind_some, across?_cons (by simp [isOutside_tag hdepth]), hnext, hlast,
    across?_cons (by simp), List.head?_nil, Option.none_or, hclose, across?]

end Place

open Place (between deeper)

/-- How much deeper the scan takes itself to be behind a section. -/
def weight : SectionKind → Int
  | .comment | .cdata => 0
  | .instruction => 1

/-- A section with closed quotes, and without brackets outside of them. -/
theorem across?_section {s : Section} (hbody : Encloses ['<', '>'] s.body) {depth : Int}
    (hdepth : 0 < depth + weight s.kind) (next : Option Char) :
    (between depth).across? next s.chars = some (between (depth + weight s.kind)) := by
  obtain ⟨kind, body, hisBody⟩ := s
  have hinside (front back : List Char) (hfront : Encloses ['<', '>'] front)
      (hback : Encloses ['<', '>'] back) : Encloses ['<', '>'] (front ++ (body ++ back)) :=
    hfront.append (hbody.append hback)
  cases kind with
  | comment =>
      have h := Place.across?_markup
        (hinside ['!', '-', '-'] ['-'] (.of_all rfl) (.of_all rfl))
        (by decide) (by decide : '-' ∉ ['<', '>', '"', '\'', '/']) hdepth next
      simpa [weight, Section.chars, SectionKind.opening, SectionKind.closing] using h
  | cdata =>
      have h := Place.across?_markup
        (hinside ['!', '[', 'C', 'D', 'A', 'T', 'A', '['] [']'] (.of_all rfl) (.of_all rfl))
        (by decide) (by decide : ']' ∉ ['<', '>', '"', '\'', '/']) hdepth next
      simpa [weight, Section.chars, SectionKind.opening, SectionKind.closing] using h
  | instruction =>
      have h := Place.across?_markup
        (hinside ['?'] [] (.of_all rfl) .nil)
        (by decide) (by decide : '?' ∉ ['<', '>', '"', '\'', '/']) hdepth next
      simpa [weight, Section.chars, SectionKind.opening, SectionKind.closing] using h

/-- What follows a section does not matter to the scan of it. -/
theorem across?_chars (s : Section) (p : Place) (next : Option Char) :
    p.across? next s.chars = p.across? none s.chars := by
  obtain ⟨front, hfront⟩ : ∃ front, s.chars = front ++ ['>'] := by
    obtain ⟨kind, body, hisBody⟩ := s
    cases kind with
    | comment => exact ⟨['<', '!', '-', '-'] ++ body ++ ['-', '-'], by
        simp [Section.chars, SectionKind.opening, SectionKind.closing]⟩
    | cdata => exact ⟨['<', '!', '[', 'C', 'D', 'A', 'T', 'A', '['] ++ body ++ [']', ']'], by
        simp [Section.chars, SectionKind.opening, SectionKind.closing]⟩
    | instruction => exact ⟨['<', '?'] ++ body ++ ['?'], by
        simp [Section.chars, SectionKind.opening, SectionKind.closing]⟩
  rw [hfront, p.across?_tagEnd]

theorem head?_chars (s : Section) (rest : List Char) : (s.chars ++ rest).head? = some '<' := by
  obtain ⟨kind, body, hisBody⟩ := s
  cases kind <;> rfl

/-! ## Sections in documents -/

/-- Whether documents are found in their parameter. -/
def IsFound (ds : List String) : Prop :=
  documents (parameter ds) = ds

/-- Whether a scan that has found the documents `before` is at the place `p` behind the front of the
next one, whether its rest follows or a tag. -/
def IsAt (p : Place) (before : List String) (front rest : String) : Prop :=
  ∃ q, Place.outside.acrossAll? (before.map String.toList) = some q ∧
    q.across? (rest.toList.head?.or (some ')')) front.toList = some p ∧
    q.across? (some '<') front.toList = some p

section Insert

variable {before after : List String} {front rest : String} {p : Place}

theorem isFound_iff (hat : IsAt p before front rest) :
    IsFound (before ++ (front ++ rest) :: after) ↔
      ∃ q, p.across? (some ')') rest.toList = some q ∧ q.isOutside = true ∧
        (q.acrossAll? (after.map String.toList)).isSome = true := by
  obtain ⟨start, hbefore, hfront, -⟩ := hat
  rw [IsFound, documents_parameter_iff, List.map_append, Place.acrossAll?_append, hbefore,
    Option.bind_some, List.map_cons, Place.acrossAll?, String.toList_append,
    Place.across?_append, hfront, Option.bind_some]
  cases p.across? (some ')') rest.toList with
  | none => simp
  | some q => by_cases hq : q.isOutside = true <;> simp [Option.filter, hq]

/-- A section between the two parts of a document takes the scan to another place. -/
theorem isAt_section {s : Section} {q : Place} (hat : IsAt p before front rest)
    (hsection : p.across? none s.chars = some q) :
    IsAt q before (front ++ s.written) rest := by
  obtain ⟨start, hbefore, -, hfront⟩ := hat
  have hcross (next : Option Char) :
      start.across? next (front ++ s.written).toList = some q := by
    have hhead := head?_chars s []
    rw [List.append_nil] at hhead
    rw [String.toList_append, Section.written, String.toList_ofList, Place.across?_append, hhead]
    change (start.across? (some '<') front.toList).bind _ = _
    rw [hfront, Option.bind_some, across?_chars, hsection]
  exact ⟨start, hbefore, hcross _, hcross _⟩

/-- A section that the scan leaves at another depth keeps the documents from being found, and no
other one does. -/
theorem isFound_deeper_iff {s : Section} {k : Int}
    (hfound : IsFound (before ++ (front ++ rest) :: after)) (hat : IsAt p before front rest)
    (hsection : p.across? none s.chars = some (p.deeper k)) :
    IsFound (before ++ (front ++ s.written ++ rest) :: after) ↔ k = 0 := by
  obtain ⟨q, hq, houtside, hafter⟩ := (isFound_iff hat).1 hfound
  rw [isFound_iff (isAt_section hat hsection)]
  constructor
  · rintro ⟨r, hr, hroutside, -⟩
    by_contra hk
    rw [Place.not_isOutside_of_deeper hk hq houtside hr] at hroutside
    cases hroutside
  · rintro rfl
    have hsame : p.deeper 0 = p := by simp [deeper]
    exact ⟨q, by rwa [hsame], houtside, hafter⟩

/-- Documents of which one gets a section between its tags.  They are found again if the scan leaves
the section at the depth where it entered it, and are not found if it leaves it at another depth.
So, with closed quotes and without brackets outside of them, a comment or a CDATA section keeps the
documents, and an instruction in a document or in front of it loses them. -/
theorem isFound_section_iff {depth : Int} (s : Section)
    (hfound : IsFound (before ++ (front ++ rest) :: after))
    (hat : IsAt (between depth) before front rest) :
    (∀ k, (between depth).across? none s.chars = some (between (depth + k)) →
      (IsFound (before ++ (front ++ s.written ++ rest) :: after) ↔ k = 0)) ∧
    (Encloses ['<', '>'] s.body → 0 < depth ∨ depth = 0 ∧ s.kind = .instruction →
      (IsFound (before ++ (front ++ s.written ++ rest) :: after) ↔ s.kind ≠ .instruction)) := by
  have hcrossed (k : Int)
      (hsection : (between depth).across? none s.chars = some (between (depth + k))) :
      IsFound (before ++ (front ++ s.written ++ rest) :: after) ↔ k = 0 :=
    isFound_deeper_iff hfound hat hsection
  refine ⟨hcrossed, fun hbody hdepth => ?_⟩
  have hweight : weight s.kind = 0 ↔ s.kind ≠ .instruction := by
    cases s.kind <;> simp [weight]
  have hpositive : 0 < depth + weight s.kind := by
    rcases hdepth with hdepth | ⟨rfl, hkind⟩
    · cases s.kind <;> simp only [weight] <;> omega
    · rw [hkind]
      decide
  rw [hcrossed _ (across?_section hbody hpositive none), hweight]

end Insert

/-- A comment with brackets and parentheses in quotes. -/
def quotingComment : Section :=
  ⟨.comment, " (a 'x>y' \")(<z>\") ".toList, by decide +kernel⟩

theorem encloses_quotingComment : Encloses ['<', '>'] quotingComment.body := by
  have hfront : Encloses ['<', '>'] " (a ".toList := .of_all (by decide +kernel)
  have hfirst : Encloses ['<', '>'] ('\'' :: ("x>y".toList ++ ['\'']) ++ []) :=
    .quoted (.inr rfl) (by decide +kernel) .nil
  have hbetween : Encloses ['<', '>'] " ".toList := .of_all (by decide +kernel)
  have hsecond : Encloses ['<', '>'] ('"' :: (")(<z>".toList ++ ['"']) ++ []) :=
    .quoted (.inl rfl) (by decide +kernel) .nil
  have hend : Encloses ['<', '>'] ") ".toList := .of_all (by decide +kernel)
  exact hfront.append (hfirst.append (hbetween.append (hsecond.append hend)))

/-- The comment in the second of three documents. -/
theorem isFound_section_iff_comment :
    IsFound ["<a>)</a>", "<Filter>it's<!-- (a 'x>y' \")(<z>\") --><f a='>'/></Filter>",
      "<b/>"] := by
  have hfound : IsFound
      (["<a>)</a>"] ++ ("<Filter>it's" ++ "<f a='>'/></Filter>") :: ["<b/>"]) := by
    unfold IsFound
    decide +kernel
  have hat : IsAt (between 1) ["<a>)</a>"] "<Filter>it's" "<f a='>'/></Filter>" :=
    ⟨.outside, by decide +kernel, by decide +kernel, by decide +kernel⟩
  have h := ((isFound_section_iff quotingComment hfound hat).2 encloses_quotingComment
    (.inl Int.one_pos)).2 (by decide)
  have htext : "<Filter>it's" ++ quotingComment.written ++ "<f a='>'/></Filter>" =
      "<Filter>it's<!-- (a 'x>y' \")(<z>\") --><f a='>'/></Filter>" := by decide +kernel
  rw [htext] at h
  exact h

/-- A declaration in front of a document, and an apostrophe in a comment, lose all documents. -/
theorem documents_declaration :
    IsFound ["<Filter/>", "<Filter/>"] ∧
      documents "(<?xml version=\"1.0\"?><Filter/>)(<Filter/>)" = [] ∧
      IsFound ["<Filter><FeatureId fid=\"r.1\"/></Filter>"] ∧
      documents "(<Filter><!--it's--><FeatureId fid=\"r.1\"/></Filter>)" = [] := by
  unfold IsFound
  decide +kernel

end FilterEncoding.FilterParameter
