import FilterEncoding.Proofs.Common.Draft
import FilterEncoding.Proofs.Mapserver.Draft
import FilterEncoding.Proofs.Sql.Draft

/-!
# Values outside quotes

A value of a request that a dialect writes without quotes is a number, so that it cannot change what
the text around it means.

* `Dialect.operandDraft` — the drafts of all dialects, for a layer with any rules of quoting and
  escaping.  They tell the values of a request apart from everything else.
* `Reading.bareValues` — the values of a draft that stand outside quotes.
* `Dialect.isBareText_of_test`, `Dialect.isBareText_of_compile` — those of a test are numbers, and
  connectives add none.
* `Dialect.writesBare_comparison_iff` — when the value of a comparison is one of them.
* `Dialect.bareValues_are_numbers` — what is written bare in any dialect, and what a value that is
  bare in SQL is in the others.
-/

namespace FilterEncoding

open FilterEncoding.Geometry (Engine)
open Reading

namespace Reading

/-- The values of a draft that stand outside quotes, with their texts. -/
def bareValues (fs : List Fragment) : List (String × String) :=
  fs.filterMap fun
    | .bare (.value value) text => some (value, text)
    | _ => none

@[simp] theorem bareValues_nil : bareValues [] = [] := rfl

@[simp] theorem bareValues_words_cons (text : String) (fs : List Fragment) :
    bareValues (words text :: fs) = bareValues fs := rfl

@[simp] theorem bareValues_name_cons (name text : String) (fs : List Fragment) :
    bareValues (.bare (.name name) text :: fs) = bareValues fs := rfl

@[simp] theorem bareValues_value_cons (value text : String) (fs : List Fragment) :
    bareValues (.bare (.value value) text :: fs) = (value, text) :: bareValues fs := rfl

@[simp] theorem bareValues_token_cons (quote : Quote) (origin : Origin) (body : String)
    (fs : List Fragment) : bareValues (.token quote origin body :: fs) = bareValues fs := rfl

@[simp] theorem bareValues_valueDraft_cons (quote : Quote) (quoted : Bool)
    (value inQuotes bare : String) (fs : List Fragment) :
    bareValues (valueDraft quote quoted value inQuotes bare :: fs) =
      (if quoted then [] else [(value, bare)]) ++ bareValues fs := by
  cases quoted with
  | true => rfl
  | false => rfl

@[simp] theorem bareValues_attributeDraft_cons (isString : Bool) (name : String)
    (fs : List Fragment) :
    bareValues (Bracketed.attributeDraft isString name :: fs) = bareValues fs := by
  cases isString with
  | true => rfl
  | false => rfl

@[simp] theorem bareValues_append (fs gs : List Fragment) :
    bareValues (fs ++ gs) = bareValues fs ++ bareValues gs :=
  List.filterMap_append

@[simp] theorem bareValues_group (before : String) (fs : List Fragment) (after : String) :
    bareValues (group before fs after) = bareValues fs := by
  simp [group]

theorem bareValues_groupOfAlternatives (drafts : List (List Fragment)) :
    bareValues (groupOfAlternatives drafts) = drafts.flatMap bareValues := by
  rw [groupOfAlternatives, bareValues_group]
  fun_induction alternatives drafts with
  | case1 => rfl
  | case2 fs => simp
  | case3 fs gs rest ih => simp [ih]

end Reading

namespace Dialect

/-- A dialect as drafts, for a layer with any rules of quoting and escaping. -/
def operandDraft (d : Dialect) (layer : Layer) (engine : Engine) : Language (List Fragment) :=
  match d with
  | mapserver => Mapserver.draftFor layer
  | sql => Sql.draftFor layer fun name => .bare (.name name) (layer.quoteIdentifier name)
  | common => Common.draftFor layer engine

/-- The drafts are drafts of the dialect. -/
theorem operandDraft_translation (d : Dialect) (layer : Layer) (engine : Engine) :
    Language.Translation render (d.operandDraft layer engine) (d.language layer engine) := by
  cases d with
  | mapserver => exact Mapserver.translation layer
  | sql => exact Sql.translation fun _ => rfl
  | common => exact Common.translation layer engine

/-- A value that is escaped for a string. -/
@[simp] def escaped (layer : Layer) : Dialect → String → String
  | sql => layer.escapeSqlLiteral
  | mapserver | common => layer.escapeString

/-- A value without quotes.  Some dialects write it as it is, and the others escape it all the
same. -/
@[simp] def bareText (d : Dialect) (layer : Layer) (value : String) (unescaped : List Dialect) :
    String :=
  if d ∈ unescaped then value else d.escaped layer value

/-- Whether the values of an attribute are written as dates.  Only one dialect knows them. -/
def isDate (d : Dialect) (layer : Layer) (name : String) : Bool :=
  d = common && layer.attributeType name = some .date

variable {d : Dialect} {layer : Layer} {engine : Engine}

/-! ## The values of tests -/

/-- The value of a comparison is bare unless it is a string or a date. -/
theorem bareValues_of_relation {r : Relation} {name : String} {value : Option String}
    {ignoreCase : Bool} {fs : List Fragment}
    (h : (d.operandDraft layer engine).test (.relation r name value ignoreCase) = .ok fs) :
    bareValues fs =
      if d.isString layer name value || d.isDate layer name then []
      else [(value.getD "", d.bareText layer (value.getD "") [mapserver, sql])] := by
  cases d with
  | mapserver =>
      cases h
      simp [Mapserver.compareDraft, isDate]
  | sql =>
      cases h
      simp [Sql.compareDraft, apply_ite bareValues, isDate]
  | common =>
      cases h
      -- A missing value is a string, whatever the attribute holds.
      cases value with
      | none => simp [Common.compareDraft, Common.operandDraft, Common.valueKind, isString]
      | some v =>
          simp [Common.compareDraft, Common.operandDraft, Common.valueKind_eq_numeric_iff,
            isDate]

/-- Both bounds of a range are bare, or both are quoted. -/
theorem bareValues_append_bounds {quoted : Prop} [Decidable quoted]
    (lower upper : String × String) :
    ((if quoted then [] else [lower]) ++ if quoted then [] else [upper]) =
      if quoted then [] else [lower, upper] := by
  split
  · rfl
  · rfl

theorem bareValues_of_between {name lower upper : String} {fs : List Fragment}
    (h : (d.operandDraft layer engine).test (.between name lower upper) = .ok fs) :
    bareValues fs =
      if d.isStringRange layer name lower upper || d.isDate layer name then []
      else [(lower, d.bareText layer lower [mapserver]),
        (upper, d.bareText layer upper [mapserver])] := by
  cases d with
  | mapserver =>
      cases h
      simp [Mapserver.betweenDraft, bareValues_append_bounds, isDate]
  | sql =>
      cases h
      simp [Sql.betweenDraft, Sql.escapedDraft, bareValues_append_bounds, isDate]
  | common =>
      cases h
      simp [Common.betweenDraft, Common.operandDraft, Common.rangeKind_eq_numeric_iff,
        bareValues_append_bounds, isDate]

/-- The ids of a list are all bare or all quoted. -/
theorem bareValues_featureIdsDraft {compareId : String → Bool → String → List Fragment}
    {text : String → String} (hid : ∀ column quoted id,
      bareValues (compareId column quoted id) = if quoted then [] else [(id, text id)])
    {tokens : List String} {fs : List Fragment}
    (h : featureIdsDraft d layer compareId tokens = .ok fs) :
    ∃ quoted, (quoted = false → ∀ id ∈ FeatureId.bareIds tokens, d.isNumber id = true) ∧
      bareValues fs =
        if quoted then [] else (FeatureId.bareIds tokens).map fun id => (id, text id) := by
  obtain ⟨column, quoted, hcolumn, hnumbers, rfl⟩ := exists_of_featureIdsDraft_eq_ok h
  refine ⟨quoted, hnumbers, ?_⟩
  rw [bareValues_groupOfAlternatives, List.flatMap_map, funext (hid column quoted)]
  cases quoted with
  | true => simp
  | false => exact List.map_eq_flatMap.symm

theorem bareValues_of_featureIds {tokens : List String} {fs : List Fragment}
    (h : (d.operandDraft layer engine).test (.featureIds tokens) = .ok fs) :
    ∃ quoted, (quoted = false → ∀ id ∈ FeatureId.bareIds tokens, d.isNumber id = true) ∧
      bareValues fs = if quoted then []
        else (FeatureId.bareIds tokens).map fun id =>
          (id, d.bareText layer id [mapserver, common]) := by
  cases d with
  | mapserver => exact bareValues_featureIdsDraft (by simp [Bracketed.compareIdDraft]) h
  | sql =>
      refine bareValues_featureIdsDraft ?_ h
      simp [Sql.compareIdDraft, Sql.escapedDraft, apply_ite bareValues]
  | common => exact bareValues_featureIdsDraft (by simp [Bracketed.compareIdDraft]) h

theorem bareValues_of_like {name pattern : String} {m : Metacharacters} {ignoreCase : Bool}
    {fs : List Fragment}
    (h : (d.operandDraft layer engine).test (.like name pattern m ignoreCase) = .ok fs) :
    bareValues fs = [] := by
  cases d with
  | mapserver =>
      cases h
      simp [Mapserver.likeDraft]
  | sql =>
      have hlike : Sql.likeDraft layer (fun name => .bare (.name name) (layer.quoteIdentifier name))
          name pattern m ignoreCase = .ok fs := h
      unfold Sql.likeDraft at hlike
      split at hlike
      · cases hlike
      · cases hlike
        simp [Sql.escapeDraft, apply_ite bareValues]
  | common =>
      cases h
      simp [Common.likeDraft]

theorem bareValues_callDraft (function : String) (shape : Geometry.Shape)
    (distance : Option Float) :
    bareValues (Common.callDraft engine function shape distance) = [] := by
  simp [Common.callDraft]

theorem bareValues_of_inBox {rectangle : Geometry.Rectangle} {crs : Option String}
    {fs : List Fragment}
    (h : (d.operandDraft layer engine).test (.inBox rectangle crs) = .ok fs) :
    bareValues fs = [] := by
  cases d with
  | common =>
      cases h
      simp [Common.inBoxDraft, bareValues_callDraft]
  | _ => cases h

theorem bareValues_of_toShape {op : SpatialOperator} {shape : Geometry.Shape}
    {crs : Option String} {distance : Option Distance} {fs : List Fragment}
    (h : (d.operandDraft layer engine).test (.toShape op shape crs distance) = .ok fs) :
    bareValues fs = [] := by
  cases d with
  | common =>
      cases h
      simp [Common.toShapeDraft, apply_ite bareValues, bareValues_callDraft]
  | _ => cases h

/-! ## Values that are numbers -/

/-- What a value outside quotes looks like. -/
def IsBareText (d : Dialect) (layer : Layer) (value text : String) : Prop :=
  d.isNumber value = true ∧ (text = value ∨ text = d.escaped layer value)

theorem isBareText_bareText {value : String} (h : d.isNumber value = true)
    (unescaped : List Dialect) :
    d.IsBareText layer value (d.bareText layer value unescaped) := by
  refine ⟨h, ?_⟩
  unfold bareText
  split
  · exact .inl rfl
  · exact .inr rfl

theorem isBareText_of_test {test : Test} {fs : List Fragment}
    (h : (d.operandDraft layer engine).test test = .ok fs) :
    ∀ vt ∈ bareValues fs, d.IsBareText layer vt.1 vt.2 := by
  intro vt hvt
  cases test with
  | relation r name value ignoreCase =>
      rw [bareValues_of_relation h] at hvt
      split at hvt
      · cases hvt
      · next hbare =>
        rw [Bool.not_eq_true, Bool.or_eq_false_iff] at hbare
        rw [List.mem_singleton.1 hvt]
        exact isBareText_bareText (isNumber_getD_of_not_isString hbare.1) _
  | between name lower upper =>
      rw [bareValues_of_between h] at hvt
      split at hvt
      · cases hvt
      · next hbare =>
        rw [Bool.not_eq_true, Bool.or_eq_false_iff] at hbare
        obtain ⟨hlower, hupper⟩ := isNumber_of_not_isStringRange hbare.1
        simp only [List.mem_cons, List.not_mem_nil, or_false] at hvt
        rcases hvt with rfl | rfl
        · exact isBareText_bareText hlower _
        · exact isBareText_bareText hupper _
  | featureIds tokens =>
      obtain ⟨quoted, hnumbers, hvalues⟩ := bareValues_of_featureIds h
      rw [hvalues] at hvt
      cases quoted with
      | true => cases hvt
      | false =>
          obtain ⟨id, hid, rfl⟩ := List.mem_map.1 hvt
          exact isBareText_bareText (hnumbers rfl id hid) _
  | like name pattern m ignoreCase =>
      rw [bareValues_of_like h] at hvt
      cases hvt
  | inBox rectangle crs =>
      rw [bareValues_of_inBox h] at hvt
      cases hvt
  | toShape op shape crs distance =>
      rw [bareValues_of_toShape h] at hvt
      cases hvt

theorem bareValues_negate (fs : List Fragment) :
    bareValues ((d.operandDraft layer engine).negate fs) = bareValues fs := by
  cases d with
  | mapserver => exact bareValues_group _ _ _
  | sql => exact bareValues_group _ _ _
  | common => exact bareValues_group _ _ _

theorem bareValues_join (op : Connective) (fs gs : List Fragment) :
    bareValues ((d.operandDraft layer engine).join op fs gs) =
      bareValues fs ++ bareValues gs := by
  cases d with
  | mapserver => simp [operandDraft, Mapserver.draftFor]
  | sql => simp [operandDraft, Sql.draftFor]
  | common => simp [operandDraft, Common.draftFor]

theorem bareValues_besideBox (fs : List Fragment) :
    bareValues ((d.operandDraft layer engine).besideBox fs) = bareValues fs := by
  cases d with
  | mapserver => exact bareValues_group _ _ _
  | sql => rfl
  | common => rfl

/-- Connectives add words only. -/
theorem isBareText_of_compile {p : Predicate} {fs : List Fragment}
    (h : (d.operandDraft layer engine).compile p = .ok fs) :
    ∀ vt ∈ bareValues fs, d.IsBareText layer vt.1 vt.2 := by
  refine Language.compile_induction (d.operandDraft layer engine)
    (fun _ fs => ∀ vt ∈ bareValues fs, d.IsBareText layer vt.1 vt.2) ?_ ?_ ?_ ?_ ?_ ?_ h
  · intro leaf test fs _ htest
    exact isBareText_of_test htest
  · intro operand fs ih
    rwa [bareValues_negate]
  · intro left right fs ih
    rwa [bareValues_negate]
  · intro op left right fs gs _ ihLeft ihRight
    rw [bareValues_join]
    exact List.forall_mem_append.2 ⟨ihLeft, ihRight⟩
  · intro box partner fs _ ih
    rwa [bareValues_besideBox]
  · intro partner box fs _ ih
    rwa [bareValues_besideBox]

/-- The expression of a filter has a value outside quotes, with this text. -/
def WritesBare (d : Dialect) (layer : Layer) (engine : Engine) (p : Predicate)
    (value text : String) : Prop :=
  ∃ fs, (d.operandDraft layer engine).compile p = .ok fs ∧ (value, text) ∈ bareValues fs

theorem isBareText_of_writesBare {p : Predicate} {value text : String}
    (h : d.WritesBare layer engine p value text) : d.IsBareText layer value text := by
  obtain ⟨fs, hcompile, hmem⟩ := h
  exact isBareText_of_compile hcompile _ hmem

/-- The default rules of escaping leave numbers alone. -/
theorem escaped_toLayer_of_isNumber {s : LayerSchema} {value : String}
    (h : d.isNumber value = true) : d.escaped s.toLayer value = value := by
  cases d with
  | sql => exact Sql.doubled_of_isDecimal h
  | _ => exact backslashed_of_isNumeric h

theorem IsBareText.forall_isNumberChar {value text : String} (h : d.IsBareText layer value text) :
    ∀ c ∈ value.toList, Number.isNumberChar c = true := fun _ hc =>
  Number.isNumberChar_of_isNumeric (isNumeric_of_isNumber h.1) hc

/-! ## From one dialect to another -/

theorem isNumber_of_sql {value : String} (h : sql.isNumber value = true) :
    d.isNumber value = true := by
  cases d with
  | sql => exact h
  | _ => exact Number.isNumeric_of_isDecimal h

/-- Every dialect takes the numbers of databases as numbers. -/
theorem isString_eq_false_of_sql {name value : String}
    (h : sql.isString layer name (some value) = false) :
    d.isString layer name (some value) = false := by
  rw [isString, Bool.or_eq_false_iff, Bool.not_eq_false'] at h ⊢
  exact ⟨h.1, isNumber_of_sql h.2⟩

theorem exists_draft_of_relation (d : Dialect) (layer : Layer) (engine : Engine) (r : Relation)
    (name : String) (value : Option String) (ignoreCase : Bool) :
    ∃ fs, (d.operandDraft layer engine).test (.relation r name value ignoreCase) = .ok fs := by
  cases d with
  | mapserver => exact ⟨_, rfl⟩
  | sql => exact ⟨_, rfl⟩
  | common => exact ⟨_, rfl⟩

/-- A comparison has its value outside quotes if the value is no string and no date. -/
theorem writesBare_comparison_iff {r : Relation} {name v text : String} {value : Option String}
    {ignoreCase : Bool} {like : Option LikeOptions} :
    d.WritesBare layer engine
        (.comparison (.relation r) (.property name) (.literal value ignoreCase) like) v text ↔
      d.isString layer name value = false ∧ d.isDate layer name = false ∧ v = value.getD "" ∧
        text = d.bareText layer (value.getD "") [mapserver, sql] := by
  obtain ⟨fs, hfs⟩ := exists_draft_of_relation d layer engine r name value ignoreCase
  have htest : (Predicate.comparison (.relation r) (.property name) (.literal value ignoreCase)
      like).test? = some (.relation r name value ignoreCase) := rfl
  simp only [WritesBare, Language.compile_of_test? _ htest, hfs, Except.ok.injEq,
    exists_eq_left', bareValues_of_relation hfs]
  split
  · next hquoted =>
    rw [Bool.or_eq_true_iff] at hquoted
    rcases hquoted with hquoted | hquoted <;> simp [hquoted]
  · next hbare =>
    rw [Bool.not_eq_true, Bool.or_eq_false_iff] at hbare
    rw [List.mem_singleton, Prod.mk.injEq]
    exact ⟨fun h => ⟨hbare.1, hbare.2, h⟩, fun h => h.2.2⟩

/-- A number in the wide sense is a decimal numeral, a word for an infinity or for no number, or a
hexadecimal integer.  The drafts are drafts of the expressions of a dialect for any layer.  What
databases get as a bare value in a comparison is bare in the other dialects too, but for dates.  All
bare values are written with the characters of numbers, and a layer that escapes by the default
rules has them as they are. -/
theorem bareValues_are_numbers :
    (∀ text, Number.isNumeric text = true ↔ Number.isDecimal text = true ∨
      ∃ sign ∈ ["", "+", "-"], ∃ body, text = sign ++ body ∧
        (Number.IsSpecialWord body ∨ Number.IsHexadecimalInteger body)) ∧
    (∀ (d : Dialect) (layer : Layer) (engine : Engine) (p : Predicate),
      render <$> (d.operandDraft layer engine).compile p =
        (d.language layer engine).compile p) ∧
    (∀ (layer : Layer) (engine : Engine) (r : Relation) (name value : String) (ignoreCase : Bool)
        (like : Option LikeOptions) (text : String),
      let comparison : Predicate :=
        .comparison (.relation r) (.property name) (.literal (some value) ignoreCase) like
      sql.WritesBare layer engine comparison value text →
        mapserver.WritesBare layer engine comparison value value ∧
          (layer.attributeType name ≠ some .date →
            common.WritesBare layer engine comparison value (layer.escapeString value))) ∧
    (∀ (d : Dialect) (layer : Layer) (engine : Engine) (p : Predicate) (value text : String),
      d.WritesBare layer engine p value text →
        (∀ c ∈ value.toList, Number.isNumberChar c = true) ∧
          (text = value ∨ text = d.escaped layer value)) ∧
    ∀ (d : Dialect) (s : LayerSchema) (engine : Engine) (p : Predicate) (value text : String),
      d.WritesBare s.toLayer engine p value text → text = value := by
  refine ⟨fun _ => Number.isNumeric_iff, ?_, ?_, ?_, ?_⟩
  · intro d layer engine p
    exact (operandDraft_translation d layer engine).compile p
  · intro layer engine r name value ignoreCase like text comparison hsql
    have hstring := (writesBare_comparison_iff.1 hsql).1
    constructor
    · have hmapserver := isString_eq_false_of_sql (d := mapserver) hstring
      exact writesBare_comparison_iff.2 ⟨hmapserver, rfl, rfl, rfl⟩
    · intro hdate
      have hcommon := isString_eq_false_of_sql (d := common) hstring
      exact writesBare_comparison_iff.2 ⟨hcommon, decide_eq_false hdate, rfl, rfl⟩
  · intro d layer engine p value text h
    have hbare := isBareText_of_writesBare h
    exact ⟨hbare.forall_isNumberChar, hbare.2⟩
  · intro d s engine p value text h
    obtain ⟨hnumber, htext⟩ := isBareText_of_writesBare h
    rcases htext with rfl | rfl
    · rfl
    · exact escaped_toLayer_of_isNumber hnumber

/-- A negative number with a fraction, which all three dialects write bare. -/
theorem bareValues_are_numbers_lanes :
    let layer := ({ name := "roads", fields := [("lanes", .numeric)] } : LayerSchema).toLayer
    let comparison := Predicate.compare (.relation .lt) "lanes" (some "-3.5")
    sql.WritesBare layer .none comparison "-3.5" "-3.5" ∧
      mapserver.WritesBare layer .none comparison "-3.5" "-3.5" ∧
      common.WritesBare layer .none comparison "-3.5" "-3.5" := by
  intro layer comparison
  have hsql : sql.WritesBare layer .none comparison "-3.5" "-3.5" :=
    writesBare_comparison_iff.2 ⟨by decide, rfl, rfl, rfl⟩
  obtain ⟨hmapserver, hcommon⟩ :=
    bareValues_are_numbers.2.2.1 layer .none .lt "lanes" "-3.5" false none "-3.5" hsql
  exact ⟨hsql, hmapserver, hcommon (by decide)⟩

end Dialect

end FilterEncoding
