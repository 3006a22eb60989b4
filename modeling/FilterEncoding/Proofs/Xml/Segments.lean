import FilterEncoding.Proofs.Chars.Cut
import FilterEncoding.Xml.Segment

/-!
# Cutting documents

A document is cut into its segments from the front.  Markup is cut off whatever follows, and a run
of text where the next markup starts; so the segments of two texts in a row are those of the first
and those of the second, except that text at the end of the first goes on in the second.

* `Xml.segments_append` — the segments of a text in front of markup.
* `Xml.segments_append_text` — the segments of a text in front of more text.
-/

namespace FilterEncoding.Xml

open Chars (cutAround cutAround_of_cutAround eq_append_of_cutAround)

/-- A tag is cut off whatever follows. -/
theorem cutTag_of_cutTag {quote : Option Char} {cs body rest : List Char}
    (h : cutTag quote cs = some (body, rest)) (rest' : List Char) :
    cutTag quote (body ++ '>' :: rest') = some (body, rest') := by
  induction cs generalizing quote body rest with
  | nil => cases quote <;> cases h
  | cons c cs ih =>
      cases quote with
      | some q =>
          rw [cutTag] at h
          obtain ⟨⟨a, b⟩, hcut, heq⟩ := Option.map_eq_some_iff.1 h
          cases heq
          rw [List.cons_append, cutTag, ih hcut]
          rfl
      | none =>
          rw [cutTag] at h
          split at h
          · cases h
            rw [List.nil_append, cutTag, if_pos rfl]
          · next hc =>
            obtain ⟨⟨a, b⟩, hcut, heq⟩ := Option.map_eq_some_iff.1 h
            cases heq
            rw [List.cons_append, cutTag, if_neg hc, ih hcut]
            rfl

/-! ## One segment -/

section Kinds

variable (cs : List Char)

theorem segment?_comment : segment? ('<' :: '!' :: '-' :: '-' :: cs) =
    (cutAround ['-', '-', '>'] cs).map fun (body, rest) => (.comment body, rest) := by
  simp [segment?, afterOpening?]

theorem segment?_cdata :
    segment? ('<' :: '!' :: '[' :: 'C' :: 'D' :: 'A' :: 'T' :: 'A' :: '[' :: cs) =
      (cutAround [']', ']', '>'] cs).map fun (body, rest) => (.cdata body, rest) := by
  simp [segment?, afterOpening?]

theorem segment?_instruction : segment? ('<' :: '?' :: cs) =
    (cutAround ['?', '>'] cs).map fun (body, rest) => (.instruction body, rest) := by
  simp [segment?, afterOpening?]

theorem segment?_endTag : segment? ('<' :: '/' :: cs) =
    (cutTag none cs).map fun (body, rest) => (.endTag body, rest) := by
  simp [segment?, afterOpening?]

theorem segment?_startTag {c : Char} (hbang : c ≠ '!') (hmark : c ≠ '?') (hslash : c ≠ '/') :
    segment? ('<' :: c :: cs) =
      (cutTag none (c :: cs)).map fun (body, rest) => (.startTag body, rest) := by
  simp [segment?, afterOpening?, hbang.symm, hmark.symm, hslash.symm]

theorem segment?_text {c : Char} (hc : c ≠ '<') : segment? (c :: cs) =
    some (.text ((c :: cs).takeWhile (· != '<')), (c :: cs).dropWhile (· != '<')) := by
  simp [segment?, afterOpening?, hc.symm]

end Kinds

/-- What stands between the delimiters of a segment. -/
def Segment.body : Segment → List Char
  | text body | comment body | cdata body | instruction body | startTag body | endTag body => body

def Segment.isText : Segment → Bool
  | text _ => true
  | _ => false

/-- Whether a text is that of a segment of markup, which is cut off whatever follows. -/
structure IsMarkup (s : Segment) (written : List Char) : Prop where
  notText : s.isText = false
  starts : ∃ behind, written = '<' :: behind
  closed : '>' ∈ written
  body : s.body <:+: written
  segment? : ∀ rest, segment? (written ++ rest) = some (s, rest)

/-- A kind of markup with its opening and its closing delimiter. -/
theorem isMarkup_of_cut {opening closing body : List Char} {kind : List Char → Segment}
    {cut : List Char → Option (List Char × List Char)}
    (hopening : ∃ behind, opening = '<' :: behind) (hclosing : '>' ∈ closing)
    (hkind : (kind body).isText = false) (hbody : (kind body).body = body)
    (hsegment : ∀ rest, segment? (opening ++ (body ++ closing ++ rest)) =
      (cut (body ++ closing ++ rest)).map fun (body, rest) => (kind body, rest))
    (hcut : ∀ rest, cut (body ++ closing ++ rest) = some (body, rest)) :
    IsMarkup (kind body) (opening ++ (body ++ closing)) where
  notText := hkind
  starts := by
    obtain ⟨behind, rfl⟩ := hopening
    exact ⟨behind ++ (body ++ closing), rfl⟩
  closed := List.mem_append_right _ (List.mem_append_right _ hclosing)
  body := by
    rw [hbody]
    exact List.infix_append' opening body closing
  segment? rest := by
    rw [List.append_assoc, hsegment, hcut]
    rfl

theorem isMarkup_comment {cs body rest : List Char}
    (h : cutAround ['-', '-', '>'] cs = some (body, rest)) :
    IsMarkup (.comment body) (['<', '!', '-', '-'] ++ (body ++ ['-', '-', '>'])) :=
  isMarkup_of_cut ⟨_, rfl⟩ (by simp) rfl rfl (fun _ => segment?_comment _)
    (cutAround_of_cutAround h)

theorem isMarkup_cdata {cs body rest : List Char}
    (h : cutAround [']', ']', '>'] cs = some (body, rest)) :
    IsMarkup (.cdata body)
      (['<', '!', '[', 'C', 'D', 'A', 'T', 'A', '['] ++ (body ++ [']', ']', '>'])) :=
  isMarkup_of_cut ⟨_, rfl⟩ (by simp) rfl rfl (fun _ => segment?_cdata _)
    (cutAround_of_cutAround h)

theorem isMarkup_instruction {cs body rest : List Char}
    (h : cutAround ['?', '>'] cs = some (body, rest)) :
    IsMarkup (.instruction body) (['<', '?'] ++ (body ++ ['?', '>'])) :=
  isMarkup_of_cut ⟨_, rfl⟩ (by simp) rfl rfl (fun _ => segment?_instruction _)
    (cutAround_of_cutAround h)

theorem isMarkup_endTag {cs body rest : List Char} (h : cutTag none cs = some (body, rest)) :
    IsMarkup (.endTag body) (['<', '/'] ++ (body ++ ['>'])) :=
  isMarkup_of_cut ⟨_, rfl⟩ (by simp) rfl rfl (fun _ => segment?_endTag _)
    fun rest' => by simpa using cutTag_of_cutTag h rest'

theorem isMarkup_startTag {c : Char} {cs body rest : List Char} (hbang : c ≠ '!')
    (hmark : c ≠ '?') (hslash : c ≠ '/') (h : cutTag none (c :: cs) = some (body, rest)) :
    IsMarkup (.startTag body) (['<'] ++ (body ++ ['>'])) := by
  have hcut : ∀ rest', cutTag none (body ++ ['>'] ++ rest') = some (body, rest') :=
    fun rest' => by simpa using cutTag_of_cutTag h rest'
  refine isMarkup_of_cut ⟨_, rfl⟩ (by simp) rfl rfl (fun rest' => ?_) hcut
  -- The body, or else its end, starts with the same character.
  have hhead : ∃ tail, body ++ ['>'] ++ rest' = c :: tail := by
    have htext := eq_append_of_cutTag h
    cases body with
    | nil =>
        cases htext
        exact ⟨rest', rfl⟩
    | cons b body =>
        cases htext
        exact ⟨body ++ ['>'] ++ rest', rfl⟩
  obtain ⟨tail, htail⟩ := hhead
  rw [htail]
  exact segment?_startTag tail hbang hmark hslash

/-- The first segment of a text that starts with markup is cut off whatever follows. -/
theorem exists_isMarkup {cs rest : List Char} {s : Segment}
    (h : segment? ('<' :: cs) = some (s, rest)) :
    ∃ written, IsMarkup s written ∧ '<' :: cs = written ++ rest := by
  unfold segment? at h
  split at h
  · next inner hinner =>
    obtain ⟨⟨body, rest⟩, hcut, heq⟩ := Option.map_eq_some_iff.1 h
    cases heq
    rw [eq_append_of_afterOpening hinner, eq_append_of_cutAround hcut]
    exact ⟨_, isMarkup_comment (by simpa using hcut), by simp⟩
  split at h
  · next inner hinner =>
    obtain ⟨⟨body, rest⟩, hcut, heq⟩ := Option.map_eq_some_iff.1 h
    cases heq
    rw [eq_append_of_afterOpening hinner, eq_append_of_cutAround hcut]
    exact ⟨_, isMarkup_cdata (by simpa using hcut), by simp⟩
  split at h
  · next inner hinner =>
    obtain ⟨⟨body, rest⟩, hcut, heq⟩ := Option.map_eq_some_iff.1 h
    cases heq
    rw [eq_append_of_afterOpening hinner, eq_append_of_cutAround hcut]
    exact ⟨_, isMarkup_instruction (by simpa using hcut), by simp⟩
  split at h
  · cases h
  split at h
  · next inner hinner =>
    obtain ⟨⟨body, rest⟩, hcut, heq⟩ := Option.map_eq_some_iff.1 h
    cases heq
    rw [eq_append_of_afterOpening hinner, eq_append_of_cutTag hcut]
    exact ⟨_, isMarkup_endTag hcut, by simp⟩
  · next _ hmark hbang _ hslash =>
    cases cs with
    | nil => simp [afterOpening?, cutTag] at h
    | cons c cs =>
        have hbang : c ≠ '!' := by
          rintro rfl
          simp at hbang
        have hmark : c ≠ '?' := by
          rintro rfl
          simp [afterOpening?] at hmark
        have hslash : c ≠ '/' := by
          rintro rfl
          simp [afterOpening?] at hslash
        have htag : afterOpening? "<" ('<' :: c :: cs) = some (c :: cs) := by simp [afterOpening?]
        rw [htag] at h
        obtain ⟨⟨body, rest⟩, hcut, heq⟩ := Option.map_eq_some_iff.1 h
        cases heq
        refine ⟨_, isMarkup_startTag hbang hmark hslash hcut, ?_⟩
        rw [eq_append_of_cutTag hcut]
        simp

theorem prefix_of_segment?_cdata {cs body rest : List Char}
    (h : segment? cs = some (.cdata body, rest)) : "<![CDATA[".toList <+: cs := by
  by_cases hlead : "<![CDATA[".toList.isPrefixOf cs = true
  · exact List.isPrefixOf_iff_prefix.1 hlead
  · -- Without the opening of a section, the text starts with another kind of segment.
    have hnone : afterOpening? "<![CDATA[" cs = none := if_neg hlead
    unfold segment? at h
    rw [hnone] at h
    repeat' split at h
    all_goals first
      | contradiction
      | simp at h

/-! ## All segments -/

/-- Whether a text is empty or starts with markup. -/
def StartsMarkup (cs : List Char) : Prop :=
  cs = [] ∨ ∃ behind, cs = '<' :: behind

theorem StartsMarkup.append {cs : List Char} (h : StartsMarkup cs) {rest : List Char}
    (hrest : StartsMarkup rest) : StartsMarkup (cs ++ rest) := by
  rcases h with rfl | ⟨behind, rfl⟩
  · exact hrest
  · exact .inr ⟨behind ++ rest, rfl⟩

theorem startsMarkup_dropWhile (cs : List Char) :
    StartsMarkup (cs.dropWhile (· != '<')) := by
  induction cs with
  | nil => exact .inl rfl
  | cons c cs ih =>
      rw [List.dropWhile_cons]
      split
      · exact ih
      · next hc => exact .inr ⟨cs, by simpa using hc⟩

theorem not_mem_takeWhile (cs : List Char) : '<' ∉ cs.takeWhile (· != '<') := fun hmem => by
  have hlt := List.all_eq_true.1 List.all_takeWhile '<' hmem
  cases hlt

/-- A text that does not start with markup starts with a run of text. -/
theorem exists_text_of_not_startsMarkup {cs : List Char} (h : ¬StartsMarkup cs) :
    ∃ raw rest, cs = raw ++ rest ∧ raw ≠ [] ∧ '<' ∉ raw ∧ StartsMarkup rest := by
  refine ⟨cs.takeWhile (· != '<'), cs.dropWhile (· != '<'), List.takeWhile_append_dropWhile.symm,
    fun hnil => h ?_, not_mem_takeWhile cs, startsMarkup_dropWhile cs⟩
  have htext := List.takeWhile_append_dropWhile (p := (· != '<')) (l := cs)
  rw [hnil, List.nil_append] at htext
  rw [← htext]
  exact startsMarkup_dropWhile cs

theorem segments_of_segment? {c : Char} {cs rest : List Char} {s : Segment}
    (h : segment? (c :: cs) = some (s, rest)) :
    segments (c :: cs) = (segments rest).map (s :: ·) := by
  rw [segments]
  split
  · next hnone =>
    rw [h] at hnone
    cases hnone
  · next hsome =>
    rw [h] at hsome
    cases hsome
    rfl

theorem segments_eq_none {c : Char} {cs : List Char} (h : segment? (c :: cs) = none) :
    segments (c :: cs) = none := by
  rw [segments]
  split
  · rfl
  · next hsome =>
    rw [h] at hsome
    cases hsome

theorem segments_markup {s : Segment} {written : List Char} (h : IsMarkup s written)
    (cs : List Char) : segments (written ++ cs) = (segments cs).map (s :: ·) := by
  have hsegment := h.segment? cs
  obtain ⟨behind, rfl⟩ := h.starts
  exact segments_of_segment? hsegment

theorem segments_text {raw cs : List Char} (hne : raw ≠ []) (hraw : '<' ∉ raw)
    (hcs : StartsMarkup cs) : segments (raw ++ cs) = (segments cs).map (.text raw :: ·) := by
  have hall : ∀ x ∈ raw, (x != '<') = true := fun x hx => by
    rw [bne_iff_ne]
    rintro rfl
    exact hraw hx
  -- What follows stops the run, so that the run ends where `raw` does.
  have hstop : cs.takeWhile (· != '<') = [] ∧ cs.dropWhile (· != '<') = cs := by
    rcases hcs with rfl | ⟨behind, rfl⟩
    · exact ⟨rfl, rfl⟩
    · exact ⟨rfl, rfl⟩
  obtain ⟨c, raw, rfl⟩ := List.exists_cons_of_ne_nil hne
  have hc : c ≠ '<' := by
    rintro rfl
    exact hraw List.mem_cons_self
  have hsegment : segment? (c :: (raw ++ cs)) = some (.text (c :: raw), cs) := by
    rw [segment?_text _ hc, ← List.cons_append, List.takeWhile_append_of_pos hall,
      List.dropWhile_append_of_pos hall, hstop.1, hstop.2, List.append_nil]
  exact segments_of_segment? hsegment

/-- How a text is cut: markup whatever follows, and text up to the next markup. -/
inductive Cuts : List Char → List Segment → Prop
  | nil : Cuts [] []
  | markup {s : Segment} {written cs : List Char} {ss : List Segment} (hs : IsMarkup s written)
      (hcs : Cuts cs ss) : Cuts (written ++ cs) (s :: ss)
  | text {raw cs : List Char} {ss : List Segment} (hne : raw ≠ []) (hraw : '<' ∉ raw)
      (hmarkup : StartsMarkup cs) (hcs : Cuts cs ss) : Cuts (raw ++ cs) (.text raw :: ss)

theorem cuts_of_segments {cs : List Char} {ss : List Segment} (h : segments cs = some ss) :
    Cuts cs ss := by
  induction cs using segments.induct generalizing ss with
  | case1 =>
      rw [segments] at h
      cases h
      exact .nil
  | case2 c cs hnone =>
      rw [segments_eq_none hnone] at h
      cases h
  | case3 c cs s rest hsome ih =>
      rw [segments_of_segment? hsome] at h
      obtain ⟨tail, htail, rfl⟩ := Option.map_eq_some_iff.1 h
      have ih := ih htail
      by_cases hc : c = '<'
      · subst hc
        obtain ⟨written, hmarkup, htext⟩ := exists_isMarkup hsome
        rw [htext]
        exact .markup hmarkup ih
      · rw [segment?_text cs hc, Option.some.injEq, Prod.mk.injEq] at hsome
        obtain ⟨rfl, rfl⟩ := hsome
        have htext : (c :: cs).takeWhile (· != '<') ≠ [] := by simp [hc]
        have h := Cuts.text htext (not_mem_takeWhile (c :: cs)) (startsMarkup_dropWhile (c :: cs))
          ih
        rwa [List.takeWhile_append_dropWhile] at h

theorem Cuts.eq_nil {cs : List Char} (h : Cuts cs []) : cs = [] := by
  cases h
  rfl

theorem Cuts.segments {cs : List Char} {ss : List Segment} (h : Cuts cs ss) :
    segments cs = some ss := by
  induction h with
  | nil => rw [Xml.segments]
  | markup hs _ ih => rw [segments_markup hs, ih, Option.map_some]
  | text hne hraw hmarkup _ ih => rw [segments_text hne hraw hmarkup, ih, Option.map_some]

theorem exists_segment?_of_segments {c : Char} {cs : List Char} {s : Segment} {ss : List Segment}
    (h : segments (c :: cs) = some (s :: ss)) : ∃ rest, segment? (c :: cs) = some (s, rest) := by
  cases hsegment : segment? (c :: cs) with
  | none =>
      rw [segments_eq_none hsegment] at h
      cases h
  | some cut =>
      obtain ⟨s', rest⟩ := cut
      rw [segments_of_segment? hsegment] at h
      obtain ⟨tail, -, heq⟩ := Option.map_eq_some_iff.1 h
      cases heq
      exact ⟨rest, rfl⟩

/-- A text that starts with markup has the end of it. -/
theorem mem_of_segments {cs : List Char} {ss : List Segment}
    (h : segments ('<' :: cs) = some ss) : '>' ∈ '<' :: cs := by
  cases ss with
  | nil => cases (cuts_of_segments h).eq_nil
  | cons s ss =>
      obtain ⟨rest, hsegment⟩ := exists_segment?_of_segments h
      obtain ⟨written, hmarkup, htext⟩ := exists_isMarkup hsegment
      rw [htext]
      exact List.mem_append_left _ hmarkup.closed

/-- What stands between the delimiters of a segment stands in the text. -/
theorem Cuts.isInfix_body {cs : List Char} {ss : List Segment} (h : Cuts cs ss) :
    ∀ s ∈ ss, s.body <:+: cs := by
  induction h with
  | nil => exact fun s hs => by cases hs
  | @markup s written cs ss hs _ ih =>
      rw [List.forall_mem_cons]
      exact ⟨hs.body.trans (List.prefix_append _ _).isInfix,
        fun s' hs' => (ih s' hs').trans (List.suffix_append _ _).isInfix⟩
  | @text raw cs ss _ _ _ _ ih =>
      rw [List.forall_mem_cons]
      exact ⟨(List.prefix_append raw cs).isInfix,
        fun s' hs' => (ih s' hs').trans (List.suffix_append _ _).isInfix⟩

/-- The segments of two texts, of which the second starts with markup. -/
theorem segments_append {cs : List Char} {ss : List Segment} (h : segments cs = some ss)
    {rest : List Char} (hrest : StartsMarkup rest) :
    segments (cs ++ rest) = (segments rest).map (ss ++ ·) := by
  -- The induction is on how the first text is cut: its last run of text ends at the second text
  -- because that starts with markup.
  have hcuts := cuts_of_segments h
  clear h
  induction hcuts with
  | nil => simp
  | markup hs _ ih =>
      rw [List.append_assoc, segments_markup hs, ih, Option.map_map]
      rfl
  | text hne hraw hmarkup _ ih =>
      rw [List.append_assoc, segments_text hne hraw (hmarkup.append hrest), ih, Option.map_map]
      rfl

/-- Segments with more text behind them; it goes on with text at their end. -/
def appendText (more : List Char) : List Segment → List Segment
  | [] => [.text more]
  | [.text raw] => [.text (raw ++ more)]
  | s :: ss => s :: appendText more ss

/-- More text reaches the last segment only, and goes on with it if that is text. -/
theorem appendText_cons_cases (more : List Char) (s : Segment) (ss : List Segment) :
    appendText more (s :: ss) = s :: appendText more ss ∨ ∃ raw, s = .text raw ∧ ss = [] := by
  cases s with
  | text raw =>
      cases ss with
      | nil => exact .inr ⟨raw, rfl, rfl⟩
      | cons s' ss => exact .inl rfl
  | _ => exact .inl rfl

/-- The segments of a text in front of more text, which is followed by markup. -/
theorem segments_append_text {cs : List Char} {ss : List Segment} (h : segments cs = some ss)
    {more rest : List Char} (hne : more ≠ []) (hmore : '<' ∉ more) (hrest : StartsMarkup rest) :
    segments (cs ++ (more ++ rest)) = (segments rest).map (appendText more ss ++ ·) := by
  have hcuts := cuts_of_segments h
  clear h
  induction hcuts with
  | nil => exact segments_text hne hmore hrest
  | @markup s written cs ss hs hcs ih =>
      have happend : appendText more (s :: ss) = s :: appendText more ss := by
        refine (appendText_cons_cases more s ss).resolve_right ?_
        rintro ⟨raw, rfl, -⟩
        cases hs.notText
      rw [List.append_assoc, segments_markup hs, ih, Option.map_map, happend]
      rfl
  | @text raw cs ss hne' hraw hmarkup hcs ih =>
      rcases hmarkup with rfl | ⟨behind, rfl⟩
      · -- The run at the end of the first text and the text behind it are one run.
        have hnil := hcs.segments
        rw [segments, Option.some.injEq] at hnil
        subst hnil
        rw [List.append_nil, ← List.append_assoc]
        refine segments_text (by simp [hne]) (fun hmem => ?_) hrest
        exact (List.mem_append.1 hmem).elim hraw hmore
      · cases ss with
        | nil => cases hcs.eq_nil
        | cons s ss =>
            have hmarkup : StartsMarkup ('<' :: behind ++ (more ++ rest)) := .inr ⟨_, rfl⟩
            rw [List.append_assoc, segments_text hne' hraw hmarkup, ih, Option.map_map]
            rfl

end FilterEncoding.Xml
