import FilterEncoding.Proofs.Xml.Unprefixed
import Mathlib.Data.List.DropRight

/-!
# Words of a document

The removal of prefixes copies words from the document and makes none of its own.

* `Xml.IsWord` — texts without the characters that delimit the parts of tags.
* `Xml.IsWord.infix_of_unprefixedChars` — a word of the text without prefixes is one of the text
  with them.
-/

namespace FilterEncoding.Xml

open Chars (through)

/-- The characters that stand between the parts of a tag, and around a tag. -/
def delimiters : List Char := ['<', '>', '/', ' ', '=', '"', '\'']

/-- A text that is not empty and has no delimiters. -/
structure IsWord (word : List Char) : Prop where
  ne_nil : word ≠ []
  not_mem : ∀ c ∈ word, c ∉ delimiters

namespace IsWord

variable {word : List Char} (h : IsWord word)

include h

/-- A word stands on one side of a delimiter. -/
theorem infix_or_infix {c : Char} (hc : c ∈ delimiters) {before after : List Char}
    (hwithin : word <:+: before ++ c :: after) : word <:+: before ∨ word <:+: after := by
  rw [List.infix_append_iff] at hwithin
  rcases hwithin with hbefore | hafter | ⟨front, back, rfl, hfront, hback⟩
  · exact .inl hbefore
  · rcases List.infix_cons_iff.1 hafter with hlead | hafter
    · obtain ⟨d, tail, rfl⟩ := List.exists_cons_of_ne_nil h.ne_nil
      rw [List.cons_prefix_cons] at hlead
      obtain ⟨rfl, -⟩ := hlead
      exact absurd hc (h.not_mem d List.mem_cons_self)
    · exact .inr hafter
  · cases back with
    | nil =>
        rw [List.append_nil]
        exact .inl hfront.isInfix
    | cons d back =>
        rw [List.cons_prefix_cons] at hback
        obtain ⟨rfl, -⟩ := hback
        exact absurd hc (h.not_mem d (by simp))

theorem not_infix_nil : ¬word <:+: [] :=
  fun hwithin => h.ne_nil (List.infix_nil.1 hwithin)

theorem infix_of_cons {c : Char} (hc : c ∈ delimiters) {after : List Char}
    (hwithin : word <:+: c :: after) : word <:+: after :=
  (h.infix_or_infix hc (show word <:+: [] ++ c :: after from hwithin)).resolve_left h.not_infix_nil

end IsWord

theorem isInfix_trim (cs : List Char) : Chars.trim cs <:+: cs :=
  (List.rdropWhile_prefix _ _).isInfix.trans (List.dropWhile_suffix _).isInfix

theorem isInfix_dropFirstSlash (cs : List Char) : (dropFirstSlash cs).2 <:+: cs := by
  unfold dropFirstSlash
  split
  · exact (List.suffix_cons _ _).isInfix
  · exact List.infix_refl _

theorem isInfix_dropLastChar (c : Char) (cs : List Char) : (dropLastChar c cs).2 <:+: cs := by
  unfold dropLastChar
  split
  · exact (List.dropLast_prefix cs).isInfix
  · exact List.infix_refl _

/-- The text between the slashes of a tag. -/
def tagContent (cs : List Char) : List Char :=
  (dropLastChar '/' (dropLastChar '>' (dropFirstSlash cs).2).2).2

theorem isInfix_tagContent (cs : List Char) : tagContent cs <:+: cs :=
  ((isInfix_dropLastChar _ _).trans (isInfix_dropLastChar _ _)).trans (isInfix_dropFirstSlash cs)

/-- The parts of a tag as it is written. -/
theorem exists_of_localTag? {cs written : List Char} (h : localTag? cs = some written) :
    ∃ attributes, localAttributes? (Chars.trimStart
        ((tagContent cs).dropWhile fun c => !Chars.isBlank c)) = some attributes ∧
      written = '<' :: ((if (dropFirstSlash cs).1 then ['/'] else []) ++
        Chars.afterLast ':' ((tagContent cs).takeWhile fun c => !Chars.isBlank c) ++ attributes ++
        (if (dropLastChar '/' (dropLastChar '>' (dropFirstSlash cs).2).2).1 then ['/'] else []) ++
        (if (dropLastChar '>' (dropFirstSlash cs).2).1 then ['>'] else [])) := by
  obtain ⟨attributes, hattributes, heq⟩ := Option.map_eq_some_iff.1 h
  exact ⟨attributes, hattributes, heq.symm⟩

/-- A tag that is closed is written as one. -/
theorem exists_writtenTag_concat (body : List Char) :
    ∃ front, writtenTag (body ++ ['>']) = front ++ ['>'] := by
  have hslash : ∃ inner, (dropFirstSlash (body ++ ['>'])).2 = inner ++ ['>'] := by
    unfold dropFirstSlash
    split
    · next cs heq =>
      cases body with
      | nil => cases heq
      | cons c body =>
          cases heq
          exact ⟨body, rfl⟩
    · exact ⟨body, rfl⟩
  obtain ⟨inner, hinner⟩ := hslash
  have hclosed : (dropLastChar '>' (dropFirstSlash (body ++ ['>'])).2).1 = true := by
    simp [hinner, dropLastChar]
  unfold writtenTag
  cases hlocal : localTag? (body ++ ['>']) with
  | none => exact ⟨'<' :: body, rfl⟩
  | some written =>
      obtain ⟨attributes, -, rfl⟩ := exists_of_localTag? hlocal
      rw [hclosed, if_pos rfl, Option.getD_some, ← List.cons_append]
      exact ⟨_, rfl⟩

/-- Markup is still markup without prefixes. -/
theorem exists_unprefixedChars_cons (cs : List Char) :
    ∃ rest, unprefixedChars ('<' :: cs) = '<' :: rest := by
  cases hclosing : verbatimEnd? ('<' :: cs) with
  | some closing =>
      have hthrough : ∃ rest, (through closing ('<' :: cs)).1 = '<' :: rest := by
        rw [through]
        split
        · next hlead =>
          obtain ⟨c, rest, rfl⟩ := List.exists_cons_of_ne_nil (verbatimEnd_ne_nil hclosing)
          rw [List.isPrefixOf_iff_prefix, List.cons_prefix_cons] at hlead
          exact ⟨rest, by rw [hlead.1]⟩
        · exact ⟨_, rfl⟩
      obtain ⟨rest, hrest⟩ := hthrough
      rw [unprefixedChars_section hclosing, hrest]
      exact ⟨_, rfl⟩
  | none =>
      rw [unprefixedChars_tag hclosing, writtenTag]
      cases hlocal : localTag? (takeTag cs).1 with
      | none => exact ⟨_, rfl⟩
      | some written =>
          obtain ⟨attributes, -, rfl⟩ := exists_of_localTag? hlocal
          exact ⟨_, rfl⟩

/-- Text in front of the next tag is copied. -/
theorem prefix_of_unprefixedChars {word cs : List Char} (hword : '<' ∉ word)
    (hlead : word <+: unprefixedChars cs) : word <+: cs := by
  induction cs generalizing word with
  | nil =>
      rw [unprefixedChars] at hlead
      exact hlead
  | cons c cs ih =>
      cases word with
      | nil => exact List.nil_prefix
      | cons w word =>
          by_cases hc : c = '<'
          · subst hc
            obtain ⟨rest, hrest⟩ := exists_unprefixedChars_cons cs
            rw [hrest, List.cons_prefix_cons] at hlead
            exact absurd (hlead.1 ▸ List.mem_cons_self) hword
          · rw [unprefixedChars_text hc, List.cons_prefix_cons] at hlead
            rw [List.cons_prefix_cons]
            exact ⟨hlead.1, ih (fun hmem => hword (List.mem_cons_of_mem w hmem)) hlead.2⟩

/-- The parts of an attribute as it is written. -/
theorem exists_of_takeAttribute? {cs written rest : List Char}
    (h : takeAttribute? cs = some (written, rest)) :
    ∃ name quote value, name <:+: cs ∧ value <:+: cs ∧ rest <:+: cs ∧ quote ∈ delimiters ∧
      written = localAttribute name quote value := by
  obtain ⟨⟨name, behind⟩, hname, h⟩ := Option.bind_eq_some_iff.1 h
  have hcs := Chars.eq_append_of_cutFirst hname
  have hbehind : behind <:+: cs := ⟨name ++ ['='], [], by simp [hcs]⟩
  dsimp only at h
  split at h
  · cases h
  · next quote inner hinner =>
    obtain ⟨hquote, h⟩ := Option.ite_none_right_eq_some.1 h
    obtain ⟨⟨value, after⟩, hvalue, h⟩ := Option.bind_eq_some_iff.1 h
    cases h
    have htrim : quote :: inner <:+: cs := by
      rw [← hinner]
      exact (List.dropWhile_suffix _).isInfix.trans hbehind
    rw [Chars.eq_append_of_cutFirst hvalue] at htrim
    refine ⟨Chars.trim name, quote, value, ?_, ?_, ?_, ?_, rfl⟩
    · exact (isInfix_trim name).trans ⟨[], '=' :: behind, by simp [hcs]⟩
    · exact List.IsInfix.trans ⟨[quote], quote :: after, by simp⟩ htrim
    · exact ((List.dropWhile_suffix _).isInfix.trans ⟨quote :: value ++ [quote], [], by simp⟩).trans
        htrim
    · rcases hquote with rfl | rfl <;> decide

theorem localAttributes?_of_takeAttribute? {cs piece rest : List Char} (hne : ¬cs.isEmpty = true)
    (h : takeAttribute? cs = some (piece, rest)) :
    localAttributes? cs = (localAttributes? rest).map (piece ++ ·) := by
  rw [localAttributes?, if_neg hne]
  split
  · next hnone =>
    rw [h] at hnone
    cases hnone
  · next htake =>
    rw [h] at htake
    cases htake
    rfl

theorem localAttributes?_eq_none {cs : List Char} (hne : ¬cs.isEmpty = true)
    (h : takeAttribute? cs = none) : localAttributes? cs = none := by
  rw [localAttributes?, if_neg hne]
  split
  · rfl
  · next htake =>
    rw [h] at htake
    cases htake

namespace IsWord

variable {word : List Char} (h : IsWord word)

include h

/-- A word of an attribute, with text around it. -/
theorem infix_of_localAttribute {before name value after : List Char} {quote : Char}
    (hname : ¬isDeclarationName name = true) (hquote : quote ∈ delimiters)
    (hwithin : word <:+: before ++ (localAttribute name quote value ++ after)) :
    word <:+: before ∨ word <:+: name ∨ word <:+: value ∨ word <:+: after := by
  rw [localAttribute, if_neg hname] at hwithin
  simp only [List.cons_append, List.append_assoc, List.nil_append] at hwithin
  rcases h.infix_or_infix (by decide) hwithin with hbefore | hwithin
  · exact .inl hbefore
  rcases h.infix_or_infix (by decide) hwithin with hlocal | hwithin
  · exact .inr (.inl (hlocal.trans (Chars.isInfix_afterLast ':' name)))
  rcases h.infix_or_infix hquote (h.infix_of_cons hquote hwithin) with hvalue | hafter
  · exact .inr (.inr (.inl hvalue))
  · exact .inr (.inr (.inr hafter))

/-- A word of attributes that are written comes from the attributes they are written for. -/
theorem infix_of_localAttributes? {before cs written : List Char}
    (hlocal : localAttributes? cs = some written) (hwithin : word <:+: before ++ written) :
    word <:+: before ∨ word <:+: cs := by
  induction cs using localAttributes?.induct generalizing before written with
  | case1 cs hempty =>
      rw [localAttributes?, if_pos hempty] at hlocal
      cases hlocal
      rw [List.append_nil] at hwithin
      exact .inl hwithin
  | case2 cs hempty htake =>
      rw [localAttributes?_eq_none hempty htake] at hlocal
      cases hlocal
  | case3 cs hempty piece rest htake ih =>
      -- A declaration writes nothing, so what was written before goes on with the next attribute.
      rw [localAttributes?_of_takeAttribute? hempty htake] at hlocal
      obtain ⟨tail, htail, rfl⟩ := Option.map_eq_some_iff.1 hlocal
      obtain ⟨name, quote, value, hname, hvalue, hrest, hquote, rfl⟩ :=
        exists_of_takeAttribute? htake
      by_cases hdeclaration : isDeclarationName name = true
      · rw [localAttribute, if_pos hdeclaration, List.nil_append] at hwithin
        exact (ih htail hwithin).imp_right fun hwithin => hwithin.trans hrest
      · rcases h.infix_of_localAttribute hdeclaration hquote hwithin with
          hbefore | hlocal | hlocal | htail'
        · exact .inl hbefore
        · exact .inr (hlocal.trans hname)
        · exact .inr (hlocal.trans hvalue)
        · have hwithin := (ih htail (show word <:+: [] ++ tail from htail')).resolve_left
            h.not_infix_nil
          exact .inr (hwithin.trans hrest)

/-- A word does not reach a delimiter that may follow. -/
theorem infix_of_append_ite {c : Char} (hc : c ∈ delimiters) {cs : List Char} {b : Bool}
    (hwithin : word <:+: cs ++ (if b then [c] else [])) : word <:+: cs := by
  cases b with
  | false =>
      rw [if_neg Bool.false_ne_true, List.append_nil] at hwithin
      exact hwithin
  | true =>
      rw [if_pos rfl] at hwithin
      exact (h.infix_or_infix hc hwithin).resolve_right h.not_infix_nil

/-- A word does not reach a delimiter that may stand in front. -/
theorem infix_of_ite_append {c : Char} (hc : c ∈ delimiters) {cs : List Char} {b : Bool}
    (hwithin : word <:+: (if b then [c] else []) ++ cs) : word <:+: cs := by
  cases b with
  | false =>
      rw [if_neg Bool.false_ne_true, List.nil_append] at hwithin
      exact hwithin
  | true =>
      rw [if_pos rfl] at hwithin
      exact h.infix_of_cons hc hwithin

/-- A word of a tag without prefixes comes from the tag. -/
theorem infix_of_localTag? {cs written : List Char} (hlocal : localTag? cs = some written)
    (hwithin : word <:+: written) : word <:+: cs := by
  obtain ⟨attributes, hattributes, rfl⟩ := exists_of_localTag? hlocal
  -- The delimiters around the name and the attributes are taken off one by one.
  have hinner := h.infix_of_cons (by decide) hwithin
  have hinner := h.infix_of_append_ite (by decide) hinner
  have hinner := h.infix_of_append_ite (by decide) hinner
  rw [List.append_assoc] at hinner
  have hinner := h.infix_of_ite_append (by decide) hinner
  rcases h.infix_of_localAttributes? hattributes hinner with hname | hattributes
  · exact ((hname.trans (Chars.isInfix_afterLast ':' _)).trans
      (List.takeWhile_prefix _).isInfix).trans (isInfix_tagContent cs)
  · exact ((hattributes.trans (List.dropWhile_suffix _).isInfix).trans
      (List.dropWhile_suffix _).isInfix).trans (isInfix_tagContent cs)

/-- A word of a tag as it is written comes from the tag. -/
theorem infix_of_writtenTag {cs : List Char} (hwithin : word <:+: writtenTag cs) :
    word <:+: cs := by
  unfold writtenTag at hwithin
  cases hlocal : localTag? cs with
  | some written =>
      rw [hlocal] at hwithin
      exact h.infix_of_localTag? hlocal hwithin
  | none =>
      rw [hlocal] at hwithin
      exact h.infix_of_cons (by decide) hwithin

/-- A word of a section, which is copied, or of what follows it. -/
theorem infix_of_section {cs closing : List Char}
    (hclosing : verbatimEnd? ('<' :: cs) = some closing)
    (ih : word <:+: unprefixedChars (through closing ('<' :: cs)).2 →
      word <:+: (through closing ('<' :: cs)).2)
    (hwithin : word <:+: unprefixedChars ('<' :: cs)) : word <:+: '<' :: cs := by
  rw [unprefixedChars_section hclosing] at hwithin
  have htext := Chars.through_append closing ('<' :: cs)
  rcases Chars.through_cases closing ('<' :: cs) with hnil | ⟨before, hbefore⟩
  · rw [hnil] at hwithin htext
    rwa [unprefixedChars, htext] at hwithin
  · obtain ⟨front, rfl⟩ := exists_of_verbatimEnd? hclosing
    rw [hbefore] at hwithin htext
    simp only [List.append_assoc, List.cons_append, List.nil_append] at hwithin htext
    rw [← List.append_assoc] at hwithin htext
    rw [← htext]
    rcases h.infix_or_infix (by decide) hwithin with hsection | hrest
    · exact hsection.trans (List.prefix_append _ _).isInfix
    · exact (ih hrest).trans ⟨before ++ front ++ ['>'], [], by simp⟩

/-- A word of a tag or of what follows it. -/
theorem infix_of_tag {cs : List Char} (hnone : verbatimEnd? ('<' :: cs) = none)
    (ih : word <:+: unprefixedChars (takeTag cs).2 → word <:+: (takeTag cs).2)
    (hwithin : word <:+: unprefixedChars ('<' :: cs)) : word <:+: '<' :: cs := by
  rw [unprefixedChars_tag hnone] at hwithin
  cases hcut : cutTag none cs with
  | none =>
      rw [takeTag, hcut, unprefixedChars, List.append_nil] at hwithin
      exact (h.infix_of_writtenTag hwithin).trans (List.suffix_cons _ _).isInfix
  | some cut =>
      obtain ⟨body, rest⟩ := cut
      rw [takeTag_of_cutTag hcut] at hwithin ih
      obtain ⟨front, hfront⟩ := exists_writtenTag_concat body
      dsimp only at hwithin ih
      -- The `>` at the end of the tag as it is written keeps words from reaching over it.
      rw [hfront, List.append_assoc, List.singleton_append] at hwithin
      rw [eq_append_of_cutTag hcut]
      rcases h.infix_or_infix (by decide) hwithin with htag | hrest
      · have htag := h.infix_of_writtenTag
          (hfront ▸ htag.trans (List.prefix_append front ['>']).isInfix)
        exact htag.trans ⟨['<'], rest, by simp⟩
      · exact (ih hrest).trans ⟨'<' :: body ++ ['>'], [], by simp⟩

/-- A word of the text without prefixes is one of the text with them. -/
theorem infix_of_unprefixedChars {cs : List Char} (hwithin : word <:+: unprefixedChars cs) :
    word <:+: cs := by
  induction cs using unprefixedChars.induct with
  | case1 =>
      rw [unprefixedChars] at hwithin
      exact hwithin
  | case2 cs closing hclosing ih => exact h.infix_of_section hclosing ih hwithin
  | case3 cs hnone ih => exact h.infix_of_tag hnone ih hwithin
  | case4 c cs hc ih =>
      rw [unprefixedChars_text hc] at hwithin
      rcases List.infix_cons_iff.1 hwithin with hlead | hwithin
      · rw [← unprefixedChars_text hc] at hlead
        have hword : '<' ∉ word := fun hmem => h.not_mem '<' hmem (by decide)
        exact (prefix_of_unprefixedChars hword hlead).isInfix
      · exact (ih hwithin).trans (List.suffix_cons c cs).isInfix

end IsWord

end FilterEncoding.Xml
