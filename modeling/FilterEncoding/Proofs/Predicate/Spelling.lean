import FilterEncoding.Predicate.Document
import FilterEncoding.Proofs.Xml.Spelling

/-!
# Filters in other spellings

The predicate of a document does not depend on the qualifiers of its names, the namespaces it
declares, and the white space inside its tags.

* `Xml.Written.Content.HasElement` — documents with an element of a local name.
* `Predicate.ofDocument_spelling` — documents that have the same plain form.
-/

namespace FilterEncoding

open FilterEncoding.Xml

namespace Xml.Written.Content

/-- Whether a document has an element with a local name.  An end tag repeats the name of its start
tag. -/
def HasElement (name : String) (d : Content) : Prop :=
  ∃ t ∈ d.tags, t.name.base.chars = name.toList

theorem infix_chars {d : Content} {t : Tag} (h : t ∈ d.tags) : t.chars <:+: d.chars := by
  induction d with
  | text raw => cases h
  | closed front tag rest ih =>
      rcases List.mem_cons.1 h with rfl | h
      · exact ⟨front.chars ++ ['<'], '/' :: '>' :: rest.chars, by simp [chars]⟩
      · exact (ih h).trans ⟨front.chars ++ '<' :: (tag.chars ++ ['/', '>']), [], by simp [chars]⟩
  | nested front tag inner endQualifier endGap rest ihinner ihrest =>
      rw [tags, List.mem_cons, List.mem_append, List.mem_cons] at h
      rcases h with rfl | h | rfl | h
      · exact ⟨front.chars ++ ['<'], '>' :: (inner.chars ++
          '<' :: '/' :: ((t.ending endQualifier endGap).chars ++ '>' :: rest.chars)),
          by simp [chars]⟩
      · exact (ihinner h).trans ⟨front.chars ++ '<' :: (tag.chars ++ ['>']),
          '<' :: '/' :: ((tag.ending endQualifier endGap).chars ++ '>' :: rest.chars),
          by simp [chars]⟩
      · exact ⟨front.chars ++ '<' :: (tag.chars ++ '>' :: (inner.chars ++ ['<', '/'])),
          '>' :: rest.chars, by simp [chars]⟩
      · exact (ihrest h).trans ⟨front.chars ++ '<' :: (tag.chars ++ '>' :: (inner.chars ++
          '<' :: '/' :: ((tag.ending endQualifier endGap).chars ++ ['>']))), [], by simp [chars]⟩

theorem HasElement.contains {name : String} {d : Content} (h : d.HasElement name) :
    Text.contains name d.written = true := by
  obtain ⟨t, ht, hname⟩ := h
  have hbase : t.name.base.chars <:+: t.name.chars := by
    unfold Name.chars
    cases t.name.qualifier with
    | none => exact List.infix_refl _
    | some q => exact ⟨q.chars ++ [':'], [], by simp⟩
  have hwithin : t.name.chars <:+: t.chars := (List.prefix_append _ _).isInfix
  rw [Text.contains, written, String.toList_ofList, ← hname]
  exact Chars.occurs_iff_infix.2 ((hbase.trans hwithin).trans (infix_chars ht))

/-- The tags of the plain form are the plain forms of the tags. -/
theorem tags_plain (d : Content) : d.plain.tags = d.tags.map Tag.plain := by
  induction d with
  | text raw => rfl
  | closed front tag rest ih => rw [plain, tags, tags, ih, List.map_cons]
  | nested front tag inner endQualifier endGap rest ihinner ihrest =>
      rw [plain, tags, tags, ihinner, ihrest, List.map_cons, List.map_append, List.map_cons]
      rfl

theorem hasElement_plain {name : String} {d : Content} :
    d.plain.HasElement name ↔ d.HasElement name := by
  simp only [HasElement, tags_plain, List.mem_map, exists_exists_and_eq_and]
  rfl

/-- What is left of a document as it is written. -/
theorem unprefixed_written {d : Content} (h : d.IsQualified) :
    unprefixed d.written = d.plain.written := by
  have hchars := unprefixedChars_chars h []
  rw [List.append_nil, unprefixedChars, List.append_nil] at hchars
  rw [unprefixed, written, String.toList_ofList, hchars, written]

end Xml.Written.Content

namespace Predicate

open FilterEncoding.Xml.Written

/-- The removal of prefixes leaves the plain form of a document.  A filter document has the
predicate of every other one with the same plain form. -/
theorem ofDocument_spelling {d : Content} (h : d.IsQualified) :
    unprefixed d.written = d.plain.written ∧
      (d.HasElement "Filter" → ∀ d' : Content, d'.IsQualified → d'.plain = d.plain →
        ofDocument d'.written = ofDocument d.written) := by
  refine ⟨Content.unprefixed_written h, fun hfilter d' h' hplain => ?_⟩
  have hfilter' : d'.HasElement "Filter" := by
    rw [← Content.hasElement_plain, hplain, Content.hasElement_plain]
    exact hfilter
  rw [ofDocument, ofDocument, if_pos hfilter.contains, if_pos hfilter'.contains,
    Content.unprefixed_written h, Content.unprefixed_written h', hplain]

/-- A feature-id filter with prefixes, a declaration with a closed tag in it, and line breaks. -/
def prefixedFilter : Content :=
  .nested .none
    { name := ⟨some ⟨"ogc".toList, by decide⟩, ⟨"Filter".toList, by decide⟩⟩
      attributes := [{
        gap := .space
        separate := Blanks.space_ne_nil
        name := ⟨some ⟨"xmlns".toList, by decide⟩, ⟨"ogc".toList, by decide⟩⟩
        before := .space
        after := ⟨['\n'], List.all_eq_true.1 rfl⟩
        quote := '\''
        isQuote := .inr rfl
        value := "urn:a/>".toList
        noQuote := by decide }]
      gap := .none }
    (.closed ⟨" x='".toList, by decide⟩
      { name := ⟨some ⟨"o".toList, by decide⟩, ⟨"FeatureId".toList, by decide⟩⟩
        attributes := [{
          gap := ⟨['\n', '\t'], List.all_eq_true.1 rfl⟩
          separate := List.cons_ne_nil _ _
          name := ⟨some ⟨"o".toList, by decide⟩, ⟨"fid".toList, by decide⟩⟩
          before := .space
          after := .none
          quote := '\''
          isQuote := .inr rfl
          value := "roads.1".toList
          noQuote := by decide }]
        gap := .space }
      (.text .none))
    none ⟨['\n'], List.all_eq_true.1 rfl⟩ (.text .none)

theorem ofDocument_spelling_feature_id :
    unprefixed ("<ogc:Filter xmlns:ogc =\n'urn:a/>'> x='" ++
        "<o:FeatureId\n\to:fid ='roads.1' /></Filter\n>") =
      "<Filter> x='<FeatureId fid='roads.1'/></Filter>" ∧
    ofDocument "<Filter> x='<FeatureId fid='roads.1'/></Filter>" =
      ofDocument ("<ogc:Filter xmlns:ogc =\n'urn:a/>'> x='" ++
        "<o:FeatureId\n\to:fid ='roads.1' /></Filter\n>") := by
  have h : prefixedFilter.IsQualified := by decide +kernel
  have hplain : prefixedFilter.plain.IsQualified := by decide +kernel
  have hfilter : prefixedFilter.HasElement "Filter" := ⟨_, List.mem_cons_self, rfl⟩
  have hwritten : prefixedFilter.written = "<ogc:Filter xmlns:ogc =\n'urn:a/>'> x='" ++
      "<o:FeatureId\n\to:fid ='roads.1' /></Filter\n>" := by decide +kernel
  have hplainWritten : prefixedFilter.plain.written =
      "<Filter> x='<FeatureId fid='roads.1'/></Filter>" := by decide +kernel
  have htext := (ofDocument_spelling h).1
  have hpredicate := (ofDocument_spelling h).2 hfilter _ hplain (by decide)
  rw [hwritten, hplainWritten] at htext hpredicate
  exact ⟨htext, hpredicate⟩

end Predicate

end FilterEncoding
