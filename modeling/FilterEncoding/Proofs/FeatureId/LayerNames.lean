import FilterEncoding.Proofs.Chars.Trim
import FilterEncoding.Proofs.Plan.Request

/-!
# The type names of feature ids

The check of a layer and the languages take the same tokens apart.  The languages trim the parts of
a token, the check does not: a blank in front of a part counts as the start of its type name there,
so that the part is refused.  In everything else the two agree.

* `FeatureId.readParts` — the parts of tokens as the languages read them.
* `FeatureId.not_isForeign_iff` — when a part passes the check.
* `Predicate.checkFeatureIds_eq_ok_iff_readParts` — when all parts of a filter do.
-/

namespace FilterEncoding

namespace FeatureId

/-- The parts of tokens as the languages read them, with their type names. -/
def readParts (tokens : List String) : List String :=
  (parts tokens).map Text.trim

/-- The languages take their ids from these parts. -/
theorem bareIds_eq_readParts (tokens : List String) :
    bareIds tokens = ((readParts tokens).map withoutType).filter (· != "") := by
  rw [bareIds, readParts, List.map_map]
  rfl

/-- Whether a part has no type name, or that of the layer in front of its last dot, up to the case
of ASCII letters. -/
def IsOfLayer (layerName part : String) : Prop :=
  '.' ∉ part.toList ∨ ∃ typeName id : String, part = typeName ++ "." ++ id ∧
    '.' ∉ id.toList ∧ Text.same typeName layerName = true

/-- Whether a text starts with a blank. -/
def IsIndented (part : String) : Prop :=
  ∃ c ∈ part.toList.head?, Chars.isBlank c = true

theorem not_isIndented_iff {part : String} :
    ¬IsIndented part ↔ Chars.trimStart part.toList = part.toList := by
  rw [Chars.trimStart_eq_self_iff]
  simp [IsIndented]

/-- A part has no dot, or is cut at its last one. -/
theorem part_cases (part : String) :
    '.' ∉ part.toList ∨
      ∃ typeName id : String, part = typeName ++ "." ++ id ∧ '.' ∉ id.toList := by
  rcases hcut : Text.cutLast '.' part with _ | ⟨typeName, id⟩
  · exact .inl (Text.cutLast_eq_none_iff.1 hcut)
  · have hname : typeName? part = some typeName := by rw [typeName?, hcut, Option.map_some]
    obtain ⟨id, hpart, hid⟩ := typeName?_eq_some_iff.1 hname
    exact .inr ⟨typeName, id, hpart, hid⟩

section Cut

variable {typeName id : String} (hid : '.' ∉ id.toList) (layerName : String)
include hid

/-- There is one last dot only. -/
theorem eq_of_cut {typeName' id' : String} (hid' : '.' ∉ id'.toList)
    (h : typeName ++ "." ++ id = typeName' ++ "." ++ id') : typeName = typeName' := by
  have hname : typeName? (typeName ++ "." ++ id) = some typeName :=
    typeName?_eq_some_iff.2 ⟨id, rfl, hid⟩
  have hname' : typeName? (typeName' ++ "." ++ id') = some typeName' :=
    typeName?_eq_some_iff.2 ⟨id', rfl, hid'⟩
  rw [h, hname'] at hname
  exact (Option.some.inj hname).symm

theorem isOfLayer_iff :
    IsOfLayer layerName (typeName ++ "." ++ id) ↔ Text.same typeName layerName = true := by
  constructor
  · rintro (hnone | ⟨typeName', id', hpart, hid', hsame⟩)
    · simp at hnone
    · rwa [eq_of_cut hid hid' hpart]
  · intro hsame
    exact .inr ⟨typeName, id, rfl, hid, hsame⟩

theorem isForeign_iff :
    ({ name := layerName } : LayerSchema).IsForeign (typeName ++ "." ++ id) ↔
      ¬Text.same typeName layerName = true := by
  constructor
  · rintro ⟨typeName', id', hpart, hid', hdiffers⟩
    rwa [eq_of_cut hid hid' hpart]
  · intro hdiffers
    exact ⟨typeName, id, rfl, hid, hdiffers⟩

/-- The two sides of a dot are trimmed on their own. -/
theorem trim_cut :
    Text.trim (typeName ++ "." ++ id) = String.ofList (Chars.trimStart typeName.toList) ++ "." ++
        String.ofList (Chars.trimEnd id.toList) ∧
      '.' ∉ (String.ofList (Chars.trimEnd id.toList)).toList := by
  constructor
  · have hdot : Chars.isBlank '.' = false := by decide
    have htrim := Chars.trim_append_cons hdot typeName.toList id.toList
    rw [← String.toList_inj]
    simpa using htrim
  · have hinit : Chars.trimEnd id.toList <+: id.toList := List.rdropWhile_prefix _ _
    rw [String.toList_ofList]
    exact fun hmem => hid (hinit.subset hmem)

end Cut

/-- A part passes the check when it is of the layer as it is read, and no blank stands in front of
its type name. -/
theorem not_isForeign_iff {layerName : String} (hlayer : Text.trim layerName = layerName)
    (part : String) :
    ¬({ name := layerName } : LayerSchema).IsForeign part ↔
      IsOfLayer layerName (Text.trim part) ∧ ('.' ∈ part.toList → ¬IsIndented part) := by
  rcases part_cases part with hnone | ⟨typeName, id, rfl, hid⟩
  · have htrim : '.' ∉ (Text.trim part).toList := by
      rw [Text.toList_trim]
      exact fun hmem => hnone ((Chars.trim_infix _).subset hmem)
    have hforeign : ¬({ name := layerName } : LayerSchema).IsForeign part := by
      rintro ⟨typeName, id, rfl, -, -⟩
      simp at hnone
    exact iff_of_true hforeign ⟨.inl htrim, fun hdot => absurd hdot hnone⟩
  · obtain ⟨htrim, hidEnd⟩ := trim_cut hid
    have hdot : '.' ∈ (typeName ++ "." ++ id).toList := by simp
    have hindented : Chars.trimStart (typeName ++ "." ++ id).toList =
        (typeName ++ "." ++ id).toList ↔ Chars.trimStart typeName.toList = typeName.toList := by
      have hstart := Chars.trimStart_append_cons (by decide : Chars.isBlank '.' = false)
        typeName.toList id.toList
      simp [hstart]
    rw [isForeign_iff hid, htrim, isOfLayer_iff hidEnd, not_isIndented_iff, hindented, not_not,
      forall_prop_of_true hdot]
    constructor
    · intro hsame
      have hlower := (Text.same_iff _ _).1 hsame
      have hstart : Chars.trimStart typeName.toList = typeName.toList :=
        Chars.trimStart_eq_self_of_lower_eq hlower (by
          rw [← hlayer, Text.toList_trim, Chars.trimStart_trim])
      exact ⟨by rwa [hstart, String.ofList_toList], hstart⟩
    · rintro ⟨hsame, hstart⟩
      rwa [hstart, String.ofList_toList] at hsame

end FeatureId

namespace Predicate

open FeatureId (readParts parts IsOfLayer IsIndented)

/-- The check of a layer accepts a filter when all parts the languages read of its feature ids are
of the layer, and no part with a type name has a blank in front. -/
theorem checkFeatureIds_eq_ok_iff_readParts {layerName : String}
    (hlayer : Text.trim layerName = layerName) (p : Predicate) :
    p.checkFeatureIds layerName = .ok () ↔
      ∀ tokens, .featureIds tokens ∈ p.nodes →
        (∀ part ∈ readParts tokens, IsOfLayer layerName part) ∧
        ∀ part ∈ parts tokens, '.' ∈ part.toList → ¬IsIndented part := by
  refine (LayerSchema.checkFeatureIds_eq_ok_iff { name := layerName }).trans ?_
  constructor
  · intro hnodes tokens hmem
    have hparts : ∀ part ∈ parts tokens, IsOfLayer layerName (Text.trim part) ∧
        ('.' ∈ part.toList → ¬IsIndented part) := fun part hpart =>
      (FeatureId.not_isForeign_iff hlayer part).1 fun hforeign =>
        hnodes _ hmem ⟨tokens, rfl, part, hpart, hforeign⟩
    exact ⟨List.forall_mem_map.2 fun part hpart => (hparts part hpart).1,
      fun part hpart => (hparts part hpart).2⟩
  · rintro h n hn ⟨tokens, rfl, part, hpart, hforeign⟩
    obtain ⟨hread, hblank⟩ := h tokens hn
    exact (FeatureId.not_isForeign_iff hlayer part).2
      ⟨hread _ (List.mem_map_of_mem hpart), hblank part hpart⟩ hforeign

/-- A dot in the name of the layer, letters in either case, and a blank behind an id. -/
theorem checkFeatureIds_eq_ok_iff_readParts_dotted :
    Text.trim "ne.roads" = "ne.roads" ∧
      ∀ part ∈ readParts ["NE.Roads.1 ,, 2 "], IsOfLayer "ne.roads" part := by
  have hcheck : (unary .not (featureIds ["NE.Roads.1 ,, 2 "])).checkFeatureIds "ne.roads" =
      .ok () := rfl
  have hlayer : Text.trim "ne.roads" = "ne.roads" := by decide +kernel
  exact ⟨hlayer, ((checkFeatureIds_eq_ok_iff_readParts hlayer _).1 hcheck
    ["NE.Roads.1 ,, 2 "] (by simp [nodes])).1⟩

/-- A blank behind a comma makes the type name another one for the check, and is trimmed where the
part is read. -/
theorem checkFeatureIds_blank_behind_comma :
    Text.trim "roads" = "roads" ∧
      (featureIds ["roads.1, roads.2"]).checkFeatureIds "roads" =
        .error (.foreignFeatureId " roads.2" "roads") ∧
      ∀ tokens, featureIds tokens ∈ (featureIds ["roads.1, roads.2"]).nodes →
        ∀ part ∈ readParts tokens, IsOfLayer "roads" part := by
  refine ⟨by decide +kernel, rfl, ?_⟩
  intro tokens htokens
  simp only [nodes, List.mem_singleton, featureIds.injEq] at htokens
  have hread : readParts ["roads.1, roads.2"] = ["roads.1", "roads.2"] := by decide +kernel
  have hfirst : IsOfLayer "roads" "roads.1" := .inr ⟨"roads", "1", rfl, by decide, by decide⟩
  have hsecond : IsOfLayer "roads" "roads.2" := .inr ⟨"roads", "2", rfl, by decide, by decide⟩
  simp [htokens, hread, hfirst, hsecond]

end Predicate

end FilterEncoding
