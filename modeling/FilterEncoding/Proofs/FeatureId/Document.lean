import FilterEncoding.Proofs.FeatureId.Escaped
import FilterEncoding.Proofs.Predicate.Comments
import FilterEncoding.Proofs.Predicate.Spelling

/-!
# Documents of feature ids

A filter with one empty element for each id, which holds the id in an attribute.  The removal of
prefixes leaves such a document as it is, and it is read tag by tag.

* `FeatureIdGroup.idsDocument` — the document with these attribute values.
* `FeatureIdGroup.document?_idsDocument` — its tree.
-/

namespace FilterEncoding.FeatureIdGroup

open Xml
open Xml.Written (Blanks Content IsInside Tag)

/-! ## The document -/

/-- An attribute value as it is written in double quotes. -/
abbrev RawValue := { raw : List Char // '"' ∉ raw }

/-- The name of an element or attribute without a qualifier. -/
def plainName (word : Written.Word) : Written.Name := ⟨none, word⟩

def filterTag : Tag where
  name := plainName ⟨"Filter".toList, rfl⟩
  attributes := []
  gap := .none

theorem isQuote_doubleQuote : '"' = '"' ∨ '"' = '\'' := .inl rfl

/-- The element of one id. -/
def idTag (raw : RawValue) : Tag where
  name := plainName ⟨"FeatureId".toList, rfl⟩
  attributes := [{
    gap := .space
    separate := Blanks.space_ne_nil
    name := plainName ⟨"fid".toList, rfl⟩
    before := .none
    after := .none
    quote := '"'
    isQuote := isQuote_doubleQuote
    value := raw.1
    noQuote := raw.2 }]
  gap := .none

def idElements : List RawValue → Content
  | [] => .text .none
  | raw :: raws => .closed .none (idTag raw) (idElements raws)

/-- The document with these attribute values. -/
def idsDocument (raws : List RawValue) : Content :=
  .nested .none filterTag (idElements raws) none .none (.text .none)

/-! ## Its text -/

theorem chars_idTag (raw : RawValue) :
    (idTag raw).chars = "FeatureId fid=\"".toList ++ raw.1 ++ ['"'] := by
  simp [idTag, Tag.chars, plainName, Written.Name.chars, Written.Attribute.chars, Blanks.space,
    Blanks.none]

theorem chars_idElements (raws : List RawValue) : (idElements raws).chars =
    raws.flatMap fun raw => "<FeatureId fid=\"".toList ++ raw.1 ++ "\"/>".toList := by
  induction raws with
  | nil => rfl
  | cons raw raws ih =>
      rw [idElements, Content.chars, chars_idTag, ih]
      simp [Written.Text.none]

theorem chars_idsDocument (raws : List RawValue) : (idsDocument raws).chars =
    "<Filter>".toList ++ (idElements raws).chars ++ "</Filter>".toList := by
  simp [idsDocument, Content.chars, filterTag, Tag.chars, Tag.ending, plainName,
    Written.Name.chars, Blanks.none, Written.Text.none]

theorem isQualified_idsDocument (raws : List RawValue) : (idsDocument raws).IsQualified := by
  have hfilter : ∀ n ∈ filterTag.names, n.IsQualified := by decide +kernel
  have hending : ∀ n ∈ (filterTag.ending none .none).names, n.IsQualified := by decide +kernel
  have hid (raw : RawValue) : ∀ n ∈ (idTag raw).names, n.IsQualified := by
    simp only [idTag, Tag.names, List.map_cons, List.map_nil]
    decide +kernel
  have hids : (idElements raws).IsQualified := by
    induction raws with
    | nil => exact List.forall_mem_nil _
    | cons raw raws ih => exact List.forall_mem_cons.2 ⟨hid raw, ih⟩
  refine List.forall_mem_cons.2 ⟨hfilter, List.forall_mem_append.2 ⟨hids, ?_⟩⟩
  exact List.forall_mem_cons.2 ⟨hending, List.forall_mem_nil _⟩

/-- The document has no prefixes to remove. -/
theorem plain_idsDocument (raws : List RawValue) : (idsDocument raws).plain = idsDocument raws := by
  have hid (raw : RawValue) : (idTag raw).plain = idTag raw := rfl
  have hids : (idElements raws).plain = idElements raws := by
    induction raws with
    | nil => rfl
    | cons raw raws ih => rw [idElements, Content.plain, hid, ih]
  rw [idsDocument, Content.plain, hids]
  rfl

theorem unprefixed_idsDocument (raws : List RawValue) :
    unprefixed (idsDocument raws).written = (idsDocument raws).written := by
  rw [Content.unprefixed_written (isQualified_idsDocument raws), plain_idsDocument]

/-! ## Its segments -/

/-- The element of one id as a segment. -/
def idSegment (raw : RawValue) : Segment :=
  .startTag ((idTag raw).chars ++ ['/'])

/-- A tag is a segment, whether it is closed by a slash or not. -/
theorem isMarkup_tag (t : Tag) (closed : Bool) :
    IsMarkup (.startTag (t.chars ++ if closed then ['/'] else []))
      ('<' :: (t.chars ++ (if closed then ['/'] else []) ++ ['>'])) := by
  have hslash : IsInside (if closed then ['/'] else []) := by
    cases closed
    · exact IsInside.nil
    · exact IsInside.singleton (by decide) (by decide)
  have hcut := (IsInside.composes.tag_chars t).append hslash ['>']
  rw [cutTag, if_pos rfl, Option.map_some, List.append_nil] at hcut
  obtain ⟨c, cs, hcs, hc⟩ := t.exists_eq_cons
  have hne : ∀ d ∈ Written.reserved, c ≠ d := fun d hd heq => hc (heq ▸ hd)
  rw [hcs] at hcut ⊢
  exact isMarkup_startTag (hne '!' (by decide)) (hne '?' (by decide)) (hne '/' (by decide)) hcut

theorem segments_idElements (raws : List RawValue) (rest : List Char) :
    segments ((idElements raws).chars ++ rest) =
      (segments rest).map (raws.map idSegment ++ ·) := by
  induction raws with
  | nil => simp [idElements, Content.chars, Written.Text.none]
  | cons raw raws ih =>
      have hmarkup := isMarkup_tag (idTag raw) true
      have hchars : (idElements (raw :: raws)).chars ++ rest =
          '<' :: ((idTag raw).chars ++ ['/'] ++ ['>']) ++ ((idElements raws).chars ++ rest) := by
        simp [idElements, Content.chars, Written.Text.none]
      rw [hchars]
      refine (segments_markup hmarkup _).trans ?_
      rw [ih, Option.map_map]
      rfl

theorem segments_idsDocument (raws : List RawValue) :
    segments (idsDocument raws).chars =
      some (.startTag "Filter".toList :: (raws.map idSegment ++ [.endTag "Filter".toList])) := by
  have hstart : IsMarkup (.startTag "Filter".toList) "<Filter>".toList :=
    isMarkup_tag filterTag false
  have hcut : cutTag none "Filter>".toList = some ("Filter".toList, []) := by decide +kernel
  have hend : segments "</Filter>".toList = some [.endTag "Filter".toList] := by
    have h := segments_markup (isMarkup_endTag hcut) []
    rwa [List.append_nil, segments] at h
  rw [chars_idsDocument, List.append_assoc, segments_markup hstart, segments_idElements, hend]
  rfl

/-! ## Its tree -/

/-- A name ends at the first character that no name has. -/
theorem scanName?_append {cs : List Char} (hcs : cs.all isQualifiedNameChar = true) {c : Char}
    (hc : isQualifiedNameChar c = false) (rest : List Char) :
    scanName? (cs ++ c :: rest) = (qualifiedName? cs).map (·, c :: rest) := by
  have hall := List.all_eq_true.1 hcs
  have htake : (cs ++ c :: rest).takeWhile isQualifiedNameChar = cs := by
    rw [List.takeWhile_append_of_pos hall, List.takeWhile_cons_of_neg (by simp [hc]),
      List.append_nil]
  have hdrop : (cs ++ c :: rest).dropWhile isQualifiedNameChar = c :: rest := by
    rw [List.dropWhile_append_of_pos hall, List.dropWhile_cons_of_neg (by simp [hc])]
  rw [scanName?, htake, hdrop]

/-- The attribute of an id, behind the name of its element. -/
theorem scanAttribute?_fid {raw : RawValue} {value : String}
    (h : attributeValue? raw.1 = some value) :
    scanAttribute? (' ' :: ("fid".toList ++ '=' :: '"' :: (raw.1 ++ ['"']))) =
      some (⟨⟨"", "fid"⟩, value⟩, []) := by
  have hname := scanName?_append (by decide +kernel : "fid".toList.all isQualifiedNameChar = true)
    (by decide : isQualifiedNameChar '=' = false) ('"' :: (raw.1 ++ ['"']))
  have hfid : qualifiedName? "fid".toList = some ⟨"", "fid"⟩ := by decide +kernel
  have hspace : skipSpace (' ' :: ("fid".toList ++ '=' :: '"' :: (raw.1 ++ ['"']))) =
      "fid".toList ++ '=' :: '"' :: (raw.1 ++ ['"']) := by
    simp [skipSpace, isSpace]
  have hequals : scanEquals? ('=' :: '"' :: (raw.1 ++ ['"'])) = some ('"' :: (raw.1 ++ ['"'])) := by
    simp [scanEquals?, skipSpace, isSpace]
  have hquoted : scanQuoted? ('"' :: (raw.1 ++ ['"'])) = some (raw.1, []) := by
    rw [scanQuoted?, if_pos (.inl rfl)]
    exact Chars.cutFirst_of_notMem raw.2 []
  rw [scanAttribute?, if_pos (by decide)]
  simp only [hspace, hname, hfid, Option.map_some, Option.bind_eq_bind, Option.bind_some, hequals,
    hquoted, h]
  rfl

/-- The start tag of an id. -/
def idStartTag (value : String) : StartTag :=
  ⟨⟨"", "FeatureId"⟩, [⟨⟨"", "fid"⟩, value⟩], true⟩

theorem startTag?_idTag {raw : RawValue} {value : String}
    (h : attributeValue? raw.1 = some value) :
    startTag? ((idTag raw).chars ++ ['/']) = some (idStartTag value) := by
  have hchars : (idTag raw).chars =
      "FeatureId".toList ++ ' ' :: ("fid".toList ++ '=' :: '"' :: (raw.1 ++ ['"'])) := by
    rw [chars_idTag]
    simp
  have hname := scanName?_append
    (by decide +kernel : "FeatureId".toList.all isQualifiedNameChar = true)
    (by decide : isQualifiedNameChar ' ' = false)
    ("fid".toList ++ '=' :: '"' :: (raw.1 ++ ['"']))
  have hid : qualifiedName? "FeatureId".toList = some ⟨"", "FeatureId"⟩ := by decide +kernel
  have hattributes : scanAttributes? (' ' :: ("fid".toList ++ '=' :: '"' :: (raw.1 ++ ['"']))) =
      some [⟨⟨"", "fid"⟩, value⟩] := by
    have hnil : scanAttributes? [] = some [] := by
      rw [scanAttributes?]
      rfl
    rw [scanAttributes?, if_neg (by simp [skipSpace, isSpace])]
    split
    · next hnone =>
      rw [scanAttribute?_fid h] at hnone
      cases hnone
    · next hsome =>
      rw [scanAttribute?_fid h] at hsome
      cases hsome
      rw [hnil]
      rfl
  rw [startTag?, List.getLast?_concat, List.dropLast_concat, hchars]
  simp only [beq_self_eq_true, if_true, hname, hid, Option.map_some, Option.bind_eq_bind,
    Option.bind_some, hattributes]
  rfl

/-- The element of an id. -/
def idNode (value : String) : Node :=
  .element "FeatureId" [⟨"fid", value⟩] []

/-- The filter element while its content is read, which is in reverse. -/
def openFilter (before : List Node) : Reading :=
  ⟨[⟨⟨"", "Filter"⟩, [], [], before⟩], none⟩

theorem step?_idSegment {raw : RawValue} {value : String}
    (h : attributeValue? raw.1 = some value) (before : List Node) :
    (openFilter before).step? (idSegment raw) = some (openFilter (idNode value :: before)) := by
  have henter : Scope.enter? [] (idStartTag value) = some ([], [⟨"fid", value⟩]) := by
    simp [Scope.enter?, idStartTag, TagAttribute.declaresQualifier, TagAttribute.declaresDefault,
      Scope.expandedName?, Scope.allowsElement]
  rw [idSegment, Reading.step?, startTag?_idTag h, Option.bind_some, Reading.openTag?]
  change (Scope.enter? [] (idStartTag value)).bind _ = _
  rw [henter]
  rfl

/-- The elements are read one after another. -/
theorem foldlM_idSegments {raws : List RawValue} {values : List String}
    (h : List.Forall₂ (fun raw value => attributeValue? raw.1 = some value) raws values)
    (before : List Node) :
    (raws.map idSegment).foldlM Reading.step? (openFilter before) =
      some (openFilter ((values.map idNode).reverse ++ before)) := by
  induction h generalizing before with
  | nil => rfl
  | cons hvalue _ ih =>
      rw [List.map_cons, foldlM_of_step? (step?_idSegment hvalue before), ih]
      simp

theorem dropDeclaration?_idsDocument (raws : List RawValue) :
    dropDeclaration? (idsDocument raws).chars = some (idsDocument raws).chars := by
  have hchars : (idsDocument raws).chars =
      '<' :: 'F' :: ("ilter>".toList ++ (idElements raws).chars ++ "</Filter>".toList) := by
    rw [chars_idsDocument]
    simp
  rw [hchars, dropDeclaration?_eq]
  simp [dropMark, afterOpening?]

theorem reading?_idsDocument {raws : List RawValue} {values : List String}
    (h : List.Forall₂ (fun raw value => attributeValue? raw.1 = some value) raws values) :
    reading? (idsDocument raws).chars =
      some ⟨[], some (.element "Filter" [] (values.map idNode))⟩ := by
  have htag : startTag? "Filter".toList = some ⟨⟨"", "Filter"⟩, [], false⟩ := by decide +kernel
  have hending : endTag? "Filter".toList = some ⟨"", "Filter"⟩ := by decide +kernel
  have hstart : Reading.start.step? (.startTag "Filter".toList) = some (openFilter []) := by
    rw [Reading.step?, htag]
    rfl
  have hend (before : List Node) : (openFilter before).step? (.endTag "Filter".toList) =
      some ⟨[], some (.element "Filter" [] before.reverse)⟩ := by
    rw [Reading.step?, hending]
    rfl
  rw [reading?, dropDeclaration?_idsDocument, Option.bind_eq_bind, Option.bind_some,
    segments_idsDocument, Option.bind_eq_bind, Option.bind_some, foldlM_of_step? hstart,
    foldlM_of_foldlM (foldlM_idSegments h []), foldlM_of_step? (hend _)]
  simp

/-- The tree of a document of ids. -/
theorem document?_idsDocument {raws : List RawValue} {values : List String}
    (hallowed : ∀ raw ∈ raws, ∀ c ∈ raw.1, isAllowed c = true)
    (h : List.Forall₂ (fun raw value => attributeValue? raw.1 = some value) raws values) :
    document? (idsDocument raws).written =
      some (.element "Filter" [] (values.map idNode)) := by
  have hall : (idsDocument raws).chars.all isAllowed = true := by
    have hids : (idElements raws).chars.all isAllowed = true := by
      rw [chars_idElements, List.all_flatMap, List.all_eq_true]
      intro raw hraw
      rw [List.all_append, List.all_append, List.all_eq_true.2 (hallowed raw hraw)]
      decide +kernel
    rw [chars_idsDocument, List.all_append, List.all_append, hids]
    decide +kernel
  rw [Content.written, document?_ofList, if_pos hall, reading?_idsDocument h]
  rfl

/-! ## Its predicate -/

theorem ofFilter_idNodes {values : List String} (hne : values ≠ [])
    (hvalues : ∀ value ∈ values, value ≠ "") :
    Predicate.ofFilter (.element "Filter" [] (values.map idNode)) = .ok (.featureIds values) := by
  have hsupported (value : String) : Predicate.isSupported (idNode value) = true := by
    change Predicate.isSupportedName "FeatureId" = true
    decide +kernel
  have hfeature (value : String) : Predicate.isFeatureId (idNode value) = true := by
    change Predicate.isFeatureIdName "FeatureId" = true
    decide +kernel
  have helements : (Node.element "Filter" [] (values.map idNode)).elements = values.map idNode :=
    List.filter_eq_self.2 (List.forall_mem_map.2 fun _ _ => rfl)
  have hids : (values.map idNode).filterMap Predicate.featureId? = values := by
    rw [List.filterMap_map]
    refine (List.filterMap_congr fun value hvalue => ?_).trans List.filterMap_some
    exact if_neg (hvalues value hvalue)
  obtain ⟨first, more, rfl⟩ := List.exists_cons_of_ne_nil hne
  have htake : (more.map idNode).takeWhile Predicate.isFeatureId = more.map idNode :=
    List.takeWhile_eq_self_iff.2 (List.forall_mem_map.2 fun value _ => hfeature value)
  rw [List.map_cons] at helements hids
  rw [Predicate.ofFilter, List.map_cons, helements,
    List.dropWhile_cons_of_neg (by simp [hsupported])]
  dsimp only
  rw [if_pos (hfeature first), htake, Predicate.featureIdsOf, hids]

/-- A document of ids is the predicate of these ids. -/
theorem ofDocument_idsDocument {raws : List RawValue} {values : List String}
    (hallowed : ∀ raw ∈ raws, ∀ c ∈ raw.1, isAllowed c = true)
    (h : List.Forall₂ (fun raw value => attributeValue? raw.1 = some value) raws values)
    (hne : values ≠ []) (hvalues : ∀ value ∈ values, value ≠ "") :
    Predicate.ofDocument (idsDocument raws).written = .ok (.featureIds values) := by
  have hroot := document?_idsDocument hallowed h
  rw [← unprefixed_idsDocument] at hroot
  rw [Predicate.ofDocument_of_filter hroot rfl, ofFilter_idNodes hne hvalues]
  rfl

end FilterEncoding.FeatureIdGroup
