import FilterEncoding.Proofs.Xml.Words
import FilterEncoding.Proofs.Xml.Written

/-!
# Documents in other spellings

Qualifiers, declarations and the white space inside tags are all that the removal of prefixes takes
from a document: what is left is the text of the plain document, in which each name is its local
part and each attribute has one space in front of it.

* `Written.Content.IsQualified` — documents whose names have no colon and no blank in their parts.
* `Written.Content.unprefixedChars_chars` — the text that is left of a document.
-/

namespace FilterEncoding.Xml.Written

/-- Whether a part of a name has no colon and no blank. -/
structure Word.IsPart (w : Word) : Prop where
  noColon : ':' ∉ w.chars
  noBlank : ∀ c ∈ w.chars, Chars.isBlank c = false

/-- Whether a name has a colon only behind its qualifier, and no blank. -/
structure Name.IsQualified (n : Name) : Prop where
  qualifier : ∀ q ∈ n.qualifier, q.IsPart
  base : n.base.IsPart

theorem Word.isPart_iff {w : Word} :
    w.IsPart ↔ w.chars.all (fun c => c != ':' && !Chars.isBlank c) = true := by
  simp only [List.all_eq_true, Bool.and_eq_true, bne_iff_ne, Bool.not_eq_true']
  exact ⟨fun h c hc => ⟨fun hcolon => h.noColon (hcolon ▸ hc), h.noBlank c hc⟩,
    fun h => ⟨fun hcolon => (h ':' hcolon).1 rfl, fun c hc => (h c hc).2⟩⟩

instance (w : Word) : Decidable w.IsPart :=
  decidable_of_iff' _ Word.isPart_iff

theorem Name.isQualified_iff {n : Name} :
    n.IsQualified ↔ n.qualifier.all (fun q => decide q.IsPart) = true ∧ n.base.IsPart := by
  rw [Option.all_eq_true]
  exact ⟨fun h => ⟨fun q hq => decide_eq_true (h.qualifier q hq), h.base⟩,
    fun h => ⟨fun q hq => of_decide_eq_true (h.1 q hq), h.2⟩⟩

instance (n : Name) : Decidable n.IsQualified :=
  decidable_of_iff' _ Name.isQualified_iff

/-- The names in a tag. -/
def Tag.names (t : Tag) : List Name :=
  t.name :: t.attributes.map Attribute.name

/-- Whether all names of a document are qualified names. -/
def Content.IsQualified (d : Content) : Prop :=
  ∀ t ∈ d.tags, ∀ n ∈ t.names, n.IsQualified

instance (d : Content) : Decidable d.IsQualified :=
  inferInstanceAs (Decidable (∀ t ∈ d.tags, ∀ n ∈ t.names, n.IsQualified))

/-! ## Names -/

namespace Name.IsQualified

variable {n : Name} (h : n.IsQualified)

include h

theorem isBlank_eq_false : ∀ c ∈ n.chars, Chars.isBlank c = false := by
  obtain ⟨hqualifier, hbase⟩ := h
  unfold Name.chars
  cases hq : n.qualifier with
  | none => exact hbase.noBlank
  | some q =>
      exact List.forall_mem_append.2 ⟨(hqualifier q hq).noBlank,
        List.forall_mem_cons.2 ⟨by decide, hbase.noBlank⟩⟩

/-- The local part of a name. -/
theorem afterLast_chars : Chars.afterLast ':' n.chars = n.base.chars := by
  unfold Name.chars
  cases n.qualifier with
  | none => exact Chars.afterLast_of_notMem h.base.noColon
  | some q => exact Chars.afterLast_append h.base.noColon q.chars

/-- A declaration is known by the text of its name. -/
theorem isDeclarationName_chars : isDeclarationName n.chars = n.declares := by
  obtain ⟨hqualifier, hbase⟩ := h
  unfold isDeclarationName Name.declares Name.chars
  cases hq : n.qualifier with
  | none =>
      -- Without a colon the name does not start as a declared prefix does.
      have hlead : "xmlns:".toList.isPrefixOf n.base.chars = false := by
        rw [Bool.eq_false_iff, ne_eq, List.isPrefixOf_iff_prefix]
        exact fun hlead => hbase.noColon (hlead.subset (by simp))
      dsimp only
      rw [hlead, Bool.or_false]
  | some q =>
      have hne : q.chars ++ ':' :: n.base.chars ≠ "xmlns".toList := fun heq => by
        have hcolon : ':' ∈ "xmlns".toList := heq ▸ List.mem_append_right _ List.mem_cons_self
        simp at hcolon
      have hword : "xmlns:".toList = "xmlns".toList ++ [':'] := by simp
      have hlead : "xmlns:".toList.isPrefixOf (q.chars ++ ':' :: n.base.chars) =
          (q.chars == "xmlns".toList) := by
        rw [hword]
        exact Chars.isPrefixOf_concat (by simp) (hqualifier q hq).noColon _
      dsimp only
      rw [beq_eq_false_iff_ne.2 hne, Bool.false_or, hlead]

end Name.IsQualified

/-! ## Attributes -/

theorem trimStart_of_forall {cs : List Char} (h : ∀ c ∈ cs, Chars.isBlank c = false) :
    Chars.trimStart cs = cs := by
  cases cs with
  | nil => rfl
  | cons c cs => exact Chars.trimStart_eq_self (h c List.mem_cons_self)

namespace Blanks

variable (b : Blanks)

theorem trimStart_append (rest : List Char) :
    Chars.trimStart (b.chars ++ rest) = Chars.trimStart rest :=
  List.dropWhile_append_of_pos b.isBlank

/-- Blanks behind a text that has none are trimmed. -/
theorem trim_append {cs : List Char} (h : ∀ c ∈ cs, Chars.isBlank c = false) :
    Chars.trim (cs ++ b.chars) = cs := by
  have hstart : Chars.trimStart (cs ++ b.chars) = cs ++ if cs = [] then [] else b.chars := by
    cases cs with
    | nil => simpa using b.trimStart_append []
    | cons c cs => exact Chars.trimStart_eq_self (h c List.mem_cons_self)
  have hend {blanks : List Char} (hblanks : ∀ c ∈ blanks, Chars.isBlank c = true) :
      Chars.trimEnd (cs ++ blanks) = cs := by
    have hreverse : Chars.trimStart (blanks.reverse ++ cs.reverse) = Chars.trimStart cs.reverse :=
      List.dropWhile_append_of_pos fun c hc => hblanks c (List.mem_reverse.1 hc)
    have hkeep : Chars.trimStart cs.reverse = cs.reverse :=
      trimStart_of_forall fun c hc => h c (List.mem_reverse.1 hc)
    change (Chars.trimStart (cs ++ blanks).reverse).reverse = cs
    rw [List.reverse_append, hreverse, hkeep, List.reverse_reverse]
  rw [Chars.trim, hstart]
  refine hend fun c hc => ?_
  split at hc
  · cases hc
  · exact b.isBlank c hc

end Blanks

namespace Attribute

variable {a : Attribute}

theorem isBlank_quote (a : Attribute) : Chars.isBlank a.quote = false := by
  rcases a.isQuote with h | h <;> rw [h] <;> decide

/-- What is left of an attribute. -/
def plainChars (a : Attribute) : List Char :=
  if a.name.declares then [] else a.plain.chars

theorem localAttribute_eq (h : a.name.IsQualified) :
    localAttribute a.name.chars a.quote a.value = a.plainChars := by
  unfold localAttribute plainChars
  rw [h.isDeclarationName_chars]
  split
  · rfl
  · rw [h.afterLast_chars]
    simp [chars, plain, Blanks.space, Blanks.none, Name.chars, Name.plain]

/-- An attribute is taken in front, in its plain form if it declares nothing. -/
theorem takeAttribute?_chars (h : a.name.IsQualified) (rest : List Char) :
    takeAttribute? (Chars.trimStart (a.chars ++ rest)) =
      some (a.plainChars, Chars.trimStart rest) := by
  have htext : Chars.trimStart (a.chars ++ rest) = (a.name.chars ++ a.before.chars) ++
      '=' :: (a.after.chars ++ a.quote :: (a.value ++ a.quote :: rest)) := by
    obtain ⟨c, cs, hname⟩ := a.name.exists_eq_cons
    have hc : Chars.isBlank c = false := h.isBlank_eq_false c (hname ▸ List.mem_cons_self)
    simp only [chars, List.append_assoc, List.cons_append, List.nil_append]
    rw [a.gap.trimStart_append, hname, List.cons_append, Chars.trimStart_eq_self hc]
  have hequals : '=' ∉ a.name.chars ++ a.before.chars := fun hmem => by
    rcases List.mem_append.1 hmem with hmem | hmem
    · exact a.name.notMem_reserved _ hmem (by decide)
    · exact a.before.notMem_reserved _ hmem (by decide)
  unfold takeAttribute?
  rw [htext, Chars.cutFirst_of_notMem hequals]
  simp only [Option.bind_eq_bind, Option.bind_some, a.after.trimStart_append,
    Chars.trimStart_eq_self a.isBlank_quote, if_pos a.isQuote,
    Chars.cutFirst_of_notMem a.noQuote, a.before.trim_append h.isBlank_eq_false,
    localAttribute_eq h]
  rfl

theorem getLast?_chars (a : Attribute) : a.chars.getLast? = some a.quote := by
  have hlast : a.chars = (a.gap.chars ++ (a.name.chars ++ (a.before.chars ++
      '=' :: (a.after.chars ++ a.quote :: a.value)))) ++ [a.quote] := by
    simp [chars]
  rw [hlast, List.getLast?_concat]

end Attribute

/-- The attributes of a tag are left in their plain form, without declarations. -/
theorem localAttributes?_chars {attributes : List Attribute}
    (h : ∀ a ∈ attributes, a.name.IsQualified) (gap : Blanks) :
    localAttributes? (Chars.trimStart (attributes.flatMap Attribute.chars ++ gap.chars)) =
      some (attributes.flatMap Attribute.plainChars) := by
  induction attributes with
  | nil =>
      have hgap : Chars.trimStart gap.chars = [] := by simpa using gap.trimStart_append []
      rw [List.flatMap_nil, List.nil_append, hgap, localAttributes?]
      rfl
  | cons a attributes ih =>
      obtain ⟨ha, hattributes⟩ := List.forall_mem_cons.1 h
      have htake := Attribute.takeAttribute?_chars ha
        (attributes.flatMap Attribute.chars ++ gap.chars)
      rw [List.flatMap_cons, List.append_assoc,
        localAttributes?_of_takeAttribute? (fun hempty => ?_) htake, ih hattributes,
        List.flatMap_cons]
      · rfl
      · rw [List.isEmpty_iff.1 hempty] at htake
        cases htake

/-! ## Tags -/

theorem dropFirstSlash_append (slash : Bool) {cs : List Char} (h : cs.head? ≠ some '/') :
    dropFirstSlash ((if slash then ['/'] else []) ++ cs) = (slash, cs) := by
  cases slash with
  | true => rfl
  | false =>
      cases cs with
      | nil => rfl
      | cons c cs =>
          rw [if_neg Bool.false_ne_true, List.nil_append]
          unfold dropFirstSlash
          split
          · next heq => exact absurd (congrArg List.head? heq) h
          · rfl

theorem dropLastChar_append {c : Char} (last : Bool) {cs : List Char}
    (h : cs.getLast? ≠ some c) :
    dropLastChar c (cs ++ if last then [c] else []) = (last, cs) := by
  cases last with
  | true => simp [dropLastChar]
  | false => simp [dropLastChar, h]

namespace Tag

variable (t : Tag)

theorem flatMap_plainChars (attributes : List Attribute) :
    ((attributes.filter fun a => !a.name.declares).map Attribute.plain).flatMap Attribute.chars =
      attributes.flatMap Attribute.plainChars := by
  induction attributes with
  | nil => rfl
  | cons a attributes ih =>
      rw [List.flatMap_cons, ← ih, List.filter_cons, Attribute.plainChars]
      cases a.name.declares <;> rfl

theorem chars_plain :
    t.plain.chars = t.name.base.chars ++ t.attributes.flatMap Attribute.plainChars := by
  rw [← flatMap_plainChars]
  simp [chars, plain, Name.chars, Name.plain, Blanks.none]

/-- Behind the name of a tag stands a blank or nothing. -/
theorem takeWhile_behind_name :
    (t.attributes.flatMap Attribute.chars ++ t.gap.chars).takeWhile
      (fun c => !Chars.isBlank c) = [] := by
  have hblanks (b : Blanks) (rest : List Char) (hrest : b.chars = [] → rest = []) :
      (b.chars ++ rest).takeWhile (fun c => !Chars.isBlank c) = [] := by
    cases hb : b.chars with
    | nil => rw [hrest hb]; rfl
    | cons c cs =>
        rw [List.cons_append, List.takeWhile_cons, b.isBlank c (hb ▸ List.mem_cons_self)]
        rfl
  cases hattributes : t.attributes with
  | nil => simpa using hblanks t.gap [] fun _ => rfl
  | cons a attributes =>
      rw [List.flatMap_cons, Attribute.chars, List.append_assoc, List.append_assoc]
      exact hblanks a.gap _ fun hgap => absurd hgap a.separate

variable {t} in
theorem takeWhile_chars (h : t.name.IsQualified) :
    t.chars.takeWhile (fun c => !Chars.isBlank c) = t.name.chars ∧
      t.chars.dropWhile (fun c => !Chars.isBlank c) =
        t.attributes.flatMap Attribute.chars ++ t.gap.chars := by
  have hname : ∀ c ∈ t.name.chars, (!Chars.isBlank c) = true := fun c hc => by
    rw [h.isBlank_eq_false c hc]
    rfl
  have hbehind := t.takeWhile_behind_name
  have hdrop := List.takeWhile_append_dropWhile (p := fun c => !Chars.isBlank c)
    (l := t.attributes.flatMap Attribute.chars ++ t.gap.chars)
  rw [hbehind, List.nil_append] at hdrop
  rw [chars, List.takeWhile_append_of_pos hname, List.dropWhile_append_of_pos hname, hbehind,
    hdrop, List.append_nil]
  exact ⟨rfl, rfl⟩

/-- A tag does not end in a slash, which would be taken for one that closes it. -/
theorem getLast?_chars_ne : t.chars.getLast? ≠ some '/' := by
  have hslash {cs : List Char} (hcs : ∀ c ∈ cs, c ∉ reserved) : cs.getLast? ≠ some '/' :=
    fun hlast => hcs '/' (List.mem_of_getLast? hlast) (by decide)
  rw [chars, List.getLast?_append, List.getLast?_append]
  rcases hgap : t.gap.chars.getLast? with _ | c
  · rw [Option.none_or]
    rcases List.eq_nil_or_concat t.attributes with hnil | ⟨front, a, hlast⟩
    · rw [hnil]
      exact hslash t.name.notMem_reserved
    · have hquote : a.quote ≠ '/' := by
        rcases a.isQuote with h | h <;> rw [h] <;> decide
      rw [hlast, List.concat_eq_append, List.flatMap_append, List.flatMap_singleton,
        List.getLast?_append, a.getLast?_chars, Option.some_or, Option.some_or]
      exact fun hsome => hquote (Option.some.inj hsome)
  · rw [Option.some_or, Option.some_or, ← hgap]
    exact hslash t.gap.notMem_reserved

variable {t} in
/-- A tag is left in its plain form. -/
theorem localTag?_chars (h : ∀ n ∈ t.names, n.IsQualified) (closing selfClosing : Bool) :
    localTag? ((if closing then ['/'] else []) ++
        (t.chars ++ (if selfClosing then ['/'] else []) ++ ['>'])) =
      some ('<' :: ((if closing then ['/'] else []) ++
        (t.plain.chars ++ (if selfClosing then ['/'] else []) ++ ['>']))) := by
  obtain ⟨hname, hattributes⟩ := List.forall_mem_cons.1 h
  have hhead : (t.chars ++ (if selfClosing then ['/'] else []) ++ ['>']).head? ≠ some '/' := by
    obtain ⟨c, cs, hcs, hc⟩ := t.exists_eq_cons
    rw [hcs]
    exact fun hsome => hc (Option.some.inj hsome ▸ by decide)
  have hfirst := dropFirstSlash_append closing hhead
  have hend : dropLastChar '>' (t.chars ++ (if selfClosing then ['/'] else []) ++ ['>']) =
      (true, t.chars ++ if selfClosing then ['/'] else []) := by
    simp [dropLastChar]
  have hslash := dropLastChar_append selfClosing t.getLast?_chars_ne
  unfold localTag?
  simp only [hfirst, hend, hslash, (takeWhile_chars hname).1, (takeWhile_chars hname).2,
    hname.afterLast_chars, localAttributes?_chars (List.forall_mem_map.1 hattributes), chars_plain]
  simp

end Tag

/-! ## The end of a tag -/

/-- Whether a text is inside a tag as a whole: the tag does not end in it, and it leaves no quotes
open. -/
def IsInside (cs : List Char) : Prop :=
  ∀ rest, cutTag none (cs ++ rest) = (cutTag none rest).map fun r => (cs ++ r.1, r.2)

namespace IsInside

theorem nil : IsInside [] := fun rest => by simp

theorem append {cs ds : List Char} (hcs : IsInside cs) (hds : IsInside ds) :
    IsInside (cs ++ ds) := fun rest => by
  rw [List.append_assoc, hcs, hds, Option.map_map]
  exact congrArg (Option.map · _) (funext fun r => by simp)

theorem singleton {c : Char} (hend : c ≠ '>') (hquote : ¬(c = '"' ∨ c = '\'')) :
    IsInside [c] := fun rest => by
  rw [List.singleton_append, cutTag, if_neg hend, if_neg hquote]
  rfl

theorem of_notMem_reserved {cs : List Char} (h : ∀ c ∈ cs, c ∉ reserved) : IsInside cs := by
  induction cs with
  | nil => exact nil
  | cons c cs ih =>
      obtain ⟨hc, hcs⟩ := List.forall_mem_cons.1 h
      obtain ⟨hend, hquote⟩ : c ≠ '>' ∧ ¬(c = '"' ∨ c = '\'') := by
        simp only [reserved, List.mem_cons, not_or] at hc
        tauto
      exact (singleton hend hquote).append (ih hcs)

theorem quoted {q : Char} (hq : q = '"' ∨ q = '\'') {value : List Char} (h : q ∉ value) :
    IsInside (q :: (value ++ [q])) := fun rest => by
  have hend : q ≠ '>' := by
    rcases hq with rfl | rfl <;> decide
  have hvalue : cutTag (some q) (value ++ q :: rest) =
      (cutTag none rest).map fun r => (value ++ q :: r.1, r.2) := by
    induction value with
    | nil =>
        rw [List.nil_append, cutTag, if_pos rfl]
        rfl
    | cons c value ih =>
        obtain ⟨hc, hvalue⟩ := not_or.1 (mt List.mem_cons.2 h)
        rw [List.cons_append, cutTag, if_neg (Ne.symm hc), ih hvalue, Option.map_map]
        rfl
  rw [List.cons_append, List.append_assoc, List.singleton_append, cutTag, if_neg hend, if_pos hq,
    hvalue, Option.map_map]
  exact congrArg (Option.map · _) (funext fun r => by simp)

theorem composes : Composes IsInside where
  append := append
  unreserved := of_notMem_reserved
  equals := singleton (by decide) (by decide)
  quoted := quoted

/-- A tag ends behind what is inside it. -/
theorem takeTag_append {cs : List Char} (h : IsInside cs) (rest : List Char) :
    takeTag (cs ++ '>' :: rest) = (cs ++ ['>'], rest) := by
  refine takeTag_of_cutTag ?_
  rw [h, cutTag, if_pos rfl, Option.map_some]
  exact congrArg (fun body => some (body, rest)) (List.append_nil cs)

end IsInside

/-! ## Documents -/

/-- Markup that starts as a tag does is none of the sections that are copied. -/
theorem verbatimEnd?_eq_none {c : Char} (hbang : c ≠ '!') (hmark : c ≠ '?') (cs : List Char) :
    verbatimEnd? ('<' :: c :: cs) = none := by
  simp [verbatimEnd?, verbatimSections, hbang.symm, hmark.symm]

/-- A tag is left in its plain form, whatever follows it. -/
theorem Tag.unprefixedChars_chars {t : Tag} (h : ∀ n ∈ t.names, n.IsQualified)
    (closing selfClosing : Bool) (rest : List Char) :
    unprefixedChars ('<' :: ((if closing then ['/'] else []) ++
        (t.chars ++ if selfClosing then ['/'] else [])) ++ '>' :: rest) =
      '<' :: ((if closing then ['/'] else []) ++
        (t.plain.chars ++ if selfClosing then ['/'] else [])) ++ '>' :: unprefixedChars rest := by
  have hslash (b : Bool) : IsInside (if b then ['/'] else []) := by
    cases b
    · exact IsInside.nil
    · exact IsInside.singleton (by decide) (by decide)
  have hinside := (hslash closing).append
    ((IsInside.composes.tag_chars t).append (hslash selfClosing))
  have htake := hinside.takeTag_append rest
  have hnone : verbatimEnd? ('<' :: ((if closing then ['/'] else []) ++
      (t.chars ++ if selfClosing then ['/'] else []) ++ '>' :: rest)) = none := by
    obtain ⟨c, cs, hcs, hc⟩ := t.exists_eq_cons
    cases closing with
    | true => exact verbatimEnd?_eq_none (by decide) (by decide) _
    | false =>
        have hne : ∀ d ∈ reserved, c ≠ d := fun d hd heq => hc (heq ▸ hd)
        rw [hcs]
        exact verbatimEnd?_eq_none (hne '!' (by decide)) (hne '?' (by decide)) _
  rw [List.cons_append, unprefixedChars_tag hnone, htake, writtenTag]
  have hlocal := localTag?_chars h closing selfClosing
  rw [← List.append_assoc] at hlocal
  rw [hlocal]
  simp

namespace Content

/-- What is left of a document is its plain form. -/
theorem unprefixedChars_chars {d : Content} (h : d.IsQualified) (rest : List Char) :
    unprefixedChars (d.chars ++ rest) = d.plain.chars ++ unprefixedChars rest := by
  induction d generalizing rest with
  | text raw => exact unprefixedChars_plain raw.noTag rest
  | closed front tag content ih =>
      obtain ⟨htag, hcontent⟩ := List.forall_mem_cons.1 h
      have hstart := tag.unprefixedChars_chars htag false true (content.chars ++ rest)
      rw [ih hcontent] at hstart
      rw [chars, List.append_assoc, unprefixedChars_plain front.noTag, plain, chars]
      simpa using hstart
  | nested front tag inner endQualifier endGap content ihinner ihcontent =>
      obtain ⟨htag, h⟩ := List.forall_mem_cons.1 h
      obtain ⟨hinner, h⟩ := List.forall_mem_append.1 h
      obtain ⟨hending, hcontent⟩ := List.forall_mem_cons.1 h
      have hend := (tag.ending endQualifier endGap).unprefixedChars_chars hending true false
        (content.chars ++ rest)
      have hstart := tag.unprefixedChars_chars htag false false (inner.chars ++
        '<' :: '/' :: ((tag.ending endQualifier endGap).chars ++ '>' :: (content.chars ++ rest)))
      rw [ihcontent hcontent] at hend
      rw [ihinner hinner] at hstart
      rw [chars, List.append_assoc, unprefixedChars_plain front.noTag, plain, chars]
      have hplain : (tag.ending endQualifier endGap).plain = tag.plain.ending .none .none := rfl
      simp only [if_true, Bool.false_eq_true, if_false, List.append_nil, List.append_assoc,
        List.nil_append, List.cons_append, hplain] at hend hstart ⊢
      rw [hstart, hend]

end Content

end FilterEncoding.Xml.Written
