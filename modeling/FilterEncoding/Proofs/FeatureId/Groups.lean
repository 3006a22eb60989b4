import FilterEncoding.Proofs.Expression.FeatureIds
import FilterEncoding.Proofs.FeatureId.Document
import FilterEncoding.Proofs.FeatureId.Grouping
import FilterEncoding.Proofs.FeatureId.LayerNames

/-!
# Groups as filters

The group of a layer goes two ways: as a predicate, and as the document of a filter.  Both address
the same features.  The document is read as the predicate, the predicate passes the check of its
layer, and each dialect compares the id attribute with the ids of the group.

* `FeatureIdGroup.IsAddress` — what is known of the layer and the id of a token.
* `FeatureIdGroup.isAddress_of_resolve` — the groups of a request are made of such ids.
* `FeatureIdGroup.addressed_of_resolve` — the document, the check and the expressions of a group.
-/

namespace FilterEncoding

/-- A text that can stand in a comma list and in a document. -/
structure IsListable (s : String) : Prop where
  noComma : ',' ∉ s.toList
  kept : ∀ c ∈ s.toList, Xml.IsKept c

instance (s : String) : Decidable (IsListable s) :=
  decidable_of_iff (',' ∉ s.toList ∧ ∀ c ∈ s.toList, Xml.IsKept c)
    ⟨fun h => ⟨h.1, h.2⟩, fun h => ⟨h.noComma, h.kept⟩⟩

/-- The characters of a text are those of its sides of a dot. -/
theorem isListable_append_iff {typeName id : String} :
    IsListable (typeName ++ "." ++ id) ↔ IsListable typeName ∧ IsListable id := by
  have hdot : Xml.IsKept '.' := ⟨by decide, by decide⟩
  constructor
  · rintro ⟨hcomma, hkept⟩
    rw [String.toList_append, String.toList_append] at hcomma hkept
    simp only [List.mem_append, not_or] at hcomma
    simp only [List.forall_mem_append] at hkept
    exact ⟨⟨hcomma.1.1, hkept.1.1⟩, hcomma.2, hkept.2⟩
  · rintro ⟨hname, hid⟩
    refine ⟨by simp [hname.noComma, hid.noComma], ?_⟩
    simp only [String.toList_append, List.forall_mem_append]
    exact ⟨⟨hname.kept, List.forall_mem_singleton.2 hdot⟩, hid.kept⟩

namespace FeatureIdGroup

/-! ## A layer and an id -/

/-- The id is the one that is read behind the name of the layer and a dot. -/
structure IsAddress (layer id : String) : Prop where
  layerListable : IsListable layer
  idListable : IsListable id
  noDot : '.' ∉ id.toList
  trimmed : Chars.trimEnd id.toList = id.toList

namespace IsAddress

variable {layer id : String} (h : IsAddress layer id)
include h

theorem isListable : IsListable (layer ++ "." ++ id) :=
  isListable_append_iff.2 ⟨h.layerListable, h.idListable⟩

/-- The full id is one part for the check and for the languages. -/
theorem pieces : Text.pieces ',' (layer ++ "." ++ id) = [layer ++ "." ++ id] := by
  rw [Text.pieces, List.splitOn_eq_singleton h.isListable.noComma, List.map_singleton,
    String.ofList_toList]

/-- The languages read the id. -/
theorem withoutType_trim : FeatureId.withoutType (Text.trim (layer ++ "." ++ id)) = id := by
  obtain ⟨htrim, -⟩ := @FeatureId.trim_cut layer id h.noDot
  have hafter := Chars.afterLast_append h.noDot (Chars.trimStart layer.toList)
  rw [htrim, h.trimmed, FeatureId.withoutType, ← String.toList_inj, Text.toList_afterLast]
  simpa using hafter

/-- The check reads the layer. -/
theorem not_isForeign : ¬({ name := layer } : LayerSchema).IsForeign (layer ++ "." ++ id) := by
  rw [FeatureId.isForeign_iff h.noDot, not_not]
  exact Text.same_refl layer

end IsAddress

/-! ## Requests -/

section Tokens

variable {request token : String}

theorem isListable_of_mem_tokens (hrequest : ∀ c ∈ request.toList, Xml.IsKept c)
    (h : token ∈ tokens request) : IsListable token := by
  obtain ⟨hmem, -⟩ := List.mem_filter.1 h
  obtain ⟨piece, hpiece, rfl⟩ := List.mem_map.1 hmem
  obtain ⟨cs, hcs, rfl⟩ := List.mem_map.1 hpiece
  have htoken : (Text.trim (String.ofList cs)).toList <:+: cs := by
    rw [Text.toList_trim, String.toList_ofList]
    exact Chars.trim_infix cs
  exact ⟨fun hcomma => notMem_of_mem_splitOn hcs (htoken.subset hcomma), fun c hc =>
    hrequest c ((Chars.isInfix_of_mem_splitOn hcs).subset (htoken.subset hc))⟩

theorem trimEnd_of_mem_tokens (h : token ∈ tokens request) :
    Chars.trimEnd token.toList = token.toList := by
  obtain ⟨hmem, -⟩ := List.mem_filter.1 h
  obtain ⟨piece, -, rfl⟩ := List.mem_map.1 hmem
  rw [Text.toList_trim]
  exact Chars.trimEnd_trim piece.toList

end Tokens

theorem Belongs.isAddress {layers : List String} {token layer id : String}
    (h : Belongs layers token layer id) (hlayers : ∀ layer ∈ layers, IsListable layer)
    (htoken : IsListable token) (htrimmed : Chars.trimEnd token.toList = token.toList) :
    IsAddress layer id := by
  have hend {typeName id : String}
      (htrimmed : Chars.trimEnd (typeName ++ "." ++ id).toList = (typeName ++ "." ++ id).toList) :
      Chars.trimEnd id.toList = id.toList := by
    have hcut := Chars.trimEnd_append_cons (by decide : Chars.isBlank '.' = false)
      typeName.toList id.toList
    simpa [hcut] using htrimmed
  cases h with
  | @named before after _ typeName _ hmem hbefore hsame hid =>
      have hlayer : layer ∈ layers := by simp [hmem]
      exact ⟨hlayers layer hlayer, (isListable_append_iff.1 htoken).2, hid, hend htrimmed⟩
  | anyType hnone hid =>
      obtain ⟨hname, hlistable⟩ := isListable_append_iff.1 htoken
      exact ⟨hname, hlistable, hid, hend htrimmed⟩
  | bare honly hdot =>
      exact ⟨hlayers layer (honly ▸ List.mem_singleton_self layer), htoken, hdot, htrimmed⟩

/-- The groups of a request are made of ids that are read back. -/
theorem isAddress_of_resolve {layers : List String} {request : String}
    {groups : List FeatureIdGroup} {g : FeatureIdGroup}
    (hrequest : ∀ c ∈ request.toList, Xml.IsKept c) (hlayers : ∀ layer ∈ layers, IsListable layer)
    (hresolve : resolve layers request = .ok groups) (hg : g ∈ groups) :
    g.ids ≠ [] ∧ ∀ id ∈ g.ids, IsAddress g.layer id := by
  cases answers_iff.1 hresolve with
  | @grouped found _ hfound hgroups =>
      refine ⟨hgroups.nonempty g hg, fun id hid => ?_⟩
      -- What is asked of the layer was found for one of the tokens.
      rw [hgroups.ids g hg] at hid
      obtain ⟨f, hmem, rfl⟩ := List.mem_map.1 hid
      obtain ⟨hf, hlayer⟩ := List.mem_filter.1 hmem
      obtain ⟨token, htoken, hbelongs⟩ := exists_mem_of_forall₂ hfound hf
      have haddress := hbelongs.isAddress hlayers (isListable_of_mem_tokens hrequest htoken)
        (trimEnd_of_mem_tokens htoken)
      rwa [of_decide_eq_true hlayer] at haddress

/-! ## Groups -/

/-- The ids of a group with the name of its layer. -/
def fullIds (g : FeatureIdGroup) : List String :=
  g.ids.map fun id => g.layer ++ "." ++ id

/-- The value of an attribute that holds a text. -/
def rawValue (s : String) : RawValue :=
  ⟨s.toList.flatMap escapedChar, notMem_escaped (by decide) _⟩

section Group

variable {g : FeatureIdGroup} (h : ∀ id ∈ g.ids, IsAddress g.layer id)
include h

/-- The full ids are the parts of the predicate. -/
theorem parts_fullIds : FeatureId.parts g.fullIds = g.fullIds := by
  have hpieces : ∀ full ∈ g.fullIds, Text.pieces ',' full = [full] :=
    List.forall_mem_map.2 fun id hid => (h id hid).pieces
  rw [FeatureId.parts, List.flatMap_congr hpieces, List.flatMap_singleton']

/-- The languages read the ids that are not empty. -/
theorem bareIds_fullIds : FeatureId.bareIds g.fullIds = g.ids.filter (· != "") := by
  have hread : g.fullIds.map (fun part => FeatureId.withoutType (Text.trim part)) = g.ids := by
    rw [fullIds, List.map_map]
    exact (List.map_congr_left fun id hid => (h id hid).withoutType_trim).trans (List.map_id g.ids)
  rw [FeatureId.bareIds, parts_fullIds h, hread]

theorem checkFeatureIds_toPredicate : g.toPredicate.checkFeatureIds g.layer = .ok () := by
  refine (LayerSchema.checkFeatureIds_eq_ok_iff { name := g.layer }).2 ?_
  rintro n hn ⟨tokens, rfl, part, hpart, hforeign⟩
  obtain rfl : tokens = g.fullIds := by simpa [toPredicate, Predicate.nodes, fullIds] using hn
  rw [parts_fullIds h] at hpart
  obtain ⟨id, hid, rfl⟩ := List.mem_map.1 hpart
  exact (h id hid).not_isForeign hforeign

/-- The document has the full ids as the values of its attributes. -/
theorem ofDocument_idsDocument_fullIds (hne : g.ids ≠ []) :
    Predicate.ofDocument (idsDocument (g.fullIds.map rawValue)).written = .ok g.toPredicate := by
  have hlistable : ∀ full ∈ g.fullIds, IsListable full :=
    List.forall_mem_map.2 fun id hid => (h id hid).isListable
  refine ofDocument_idsDocument ?_ ?_ (mt List.map_eq_nil_iff.1 hne) ?_
  · refine List.forall_mem_map.2 fun full hfull => isAllowed_escaped fun c hc => ?_
    exact ((hlistable full hfull).kept c hc).allowed
  · refine List.forall₂_map_left_iff.2 (List.forall₂_same.2 fun full hfull => ?_)
    rw [rawValue, attributeValue?_escaped (hlistable full hfull).kept, String.ofList_toList]
  · refine List.forall_mem_map.2 fun id _ hempty => ?_
    simpa using congrArg String.toList hempty

end Group

/-- The document of a group as it is written. -/
theorem toDocument_eq (g : FeatureIdGroup) :
    g.toDocument = (idsDocument (g.fullIds.map rawValue)).written := by
  have hdot : escapedChar '.' = ['.'] := by decide
  have htag (id : String) :
      ("<FeatureId fid=\"" ++ escaped g.layer ++ "." ++ escaped id ++ "\"/>").toList =
        "<FeatureId fid=\"".toList ++ (rawValue (g.layer ++ "." ++ id)).1 ++ "\"/>".toList := by
    simp [escaped, rawValue, hdot]
  rw [Xml.Written.Content.written, ← String.toList_inj, String.toList_ofList, chars_idsDocument,
    chars_idElements, toDocument, String.toList_append, String.toList_append, String.toList_join,
    fullIds, List.map_map, List.flatMap_map, List.flatMap_map]
  simp only [htag, Function.comp_apply]

/-- A group of a request is addressed by its document and by its predicate alike.  The document is
read as the predicate, the predicate is one of the layer, and every dialect compares the id
attribute with the ids of the group that are not empty, in their order. -/
theorem addressed_of_resolve {layers : List String} {request : String}
    {groups : List FeatureIdGroup} {g : FeatureIdGroup}
    (hrequest : ∀ c ∈ request.toList, Xml.IsKept c) (hlayers : ∀ layer ∈ layers, IsListable layer)
    (hresolve : resolve layers request = .ok groups) (hg : g ∈ groups) :
    Predicate.ofDocument g.toDocument = .ok g.toPredicate ∧
      g.toPredicate.checkFeatureIds g.layer = .ok () ∧
      ∀ (s : LayerSchema) (column : String), s.idAttribute = some column →
        ∀ (d : Dialect) (engine : Geometry.Engine), d.compile s.toLayer engine g.toPredicate =
          .ok (d.idTests? s.connection column (g.ids.filter (· != ""))) := by
  obtain ⟨hne, haddress⟩ := isAddress_of_resolve hrequest hlayers hresolve hg
  refine ⟨?_, checkFeatureIds_toPredicate haddress, fun s column hcolumn d engine => ?_⟩
  · rw [toDocument_eq, ofDocument_idsDocument_fullIds haddress hne]
  · rw [← bareIds_fullIds haddress]
    exact Dialect.compile_featureIds hcolumn d engine g.fullIds

/-- Names with dots, blanks, colons and characters that are escaped, and an id that is empty. -/
theorem addressed_of_resolve_escaped :
    resolve ["a.b & <c>", "x:y's \"z\""]
        "A.B & <C>. 7 ,x:y's \"z\".O'Re:il,a.b & <c>.,a.B & <c>.&lt;\"" =
      .ok [⟨"a.b & <c>", [" 7", "", "&lt;\""]⟩, ⟨"x:y's \"z\"", ["O'Re:il"]⟩] ∧
    Predicate.ofDocument (toDocument ⟨"a.b & <c>", [" 7", "", "&lt;\""]⟩) =
      .ok (.featureIds ["a.b & <c>. 7", "a.b & <c>.", "a.b & <c>.&lt;\""]) ∧
    ∀ engine, Dialect.mapserver.compile
        (LayerSchema.toLayer { name := "a.b & <c>", idAttribute := some "id" }) engine
        (toPredicate ⟨"a.b & <c>", [" 7", "", "&lt;\""]⟩) =
      .ok (some "((\"[id]\" = \" 7\") OR (\"[id]\" = \"&lt;\\\"\"))") := by
  have hresolve : resolve ["a.b & <c>", "x:y's \"z\""]
      "A.B & <C>. 7 ,x:y's \"z\".O'Re:il,a.b & <c>.,a.B & <c>.&lt;\"" =
    .ok [⟨"a.b & <c>", [" 7", "", "&lt;\""]⟩, ⟨"x:y's \"z\"", ["O'Re:il"]⟩] := by
    decide +kernel
  obtain ⟨hread, -, hcompile⟩ := addressed_of_resolve (by decide +kernel) (by decide +kernel)
    hresolve List.mem_cons_self
  refine ⟨hresolve, hread, fun engine => ?_⟩
  rw [hcompile _ "id" rfl .mapserver engine]
  decide +kernel

end FeatureIdGroup

end FilterEncoding
