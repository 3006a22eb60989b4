import FilterEncoding.Proofs.Common.Draft
import FilterEncoding.Proofs.Geometry.Characters

/-!
# Dates that end their literal

In the common dialect a request stays in its tokens, with one exception: a value that is compared
with a date stands between backticks, and escaping leaves its own backticks as they are.

* `IsSafe` — a test is not an exception.
* `contained_iff_safe_dates` — an expression contains its request exactly if all its tests are safe.
-/

namespace FilterEncoding.Common

open FilterEncoding.Geometry (Engine Rectangle Shape Unquoted)
open Bracketed
open Reading

/-! ## Values -/

/-- A value does not end the literal it stands in. -/
def IsSafeOperand (kind : ValueKind) (v : String) : Prop :=
  kind = .date → '`' ∉ v.toList

theorem backtick_mem_backslashed_iff {v : String} :
    '`' ∈ (backslashed v).toList ↔ '`' ∈ v.toList := by
  rw [backslashed, String.toList_ofList, List.mem_flatMap]
  constructor
  · rintro ⟨c, hc, hmem⟩
    split at hmem
    · rw [List.mem_cons, List.mem_singleton] at hmem
      rcases hmem with hmem | rfl
      · cases hmem
      · exact hc
    · cases List.mem_singleton.1 hmem
      exact hc
  · intro h
    exact ⟨'`', h, by decide⟩

/-- A date without a backtick. -/
theorem sealed_date {v : String} (h : '`' ∉ v.toList) :
    Sealed dateQuote (mark (.value v) (backslashed v)) :=
  sealed_of_not_mem (by decide) (fun hmem => h (backtick_mem_backslashed_iff.1 hmem)) _

/-- A date is closed by its first backtick. -/
theorem closesEarly_date {v : String} (h : '`' ∈ v.toList) :
    ClosesEarly dateQuote (.value v) (backslashed v) := by
  -- Split at the first backtick: what is in front of it has none and stays inside.
  obtain ⟨before, after, hsplit, hbefore⟩ :=
    List.eq_append_cons_of_mem (backtick_mem_backslashed_iff.2 h)
  refine ⟨?_, before, after, hsplit, ?_⟩
  · -- A number has no backtick, so that the value is one that may stand inside tokens only.
    show Number.isNumeric v = false
    rw [← Bool.not_eq_true]
    intro hnumber
    exact absurd (Number.isNumberChar_of_isNumeric hnumber h) (by decide)
  · exact sealed_of_not_mem (by decide) hbefore _

theorem contains_operandDraft {kind : ValueKind} {v : String}
    (hnumber : kind = .numeric → Number.isNumeric v = true) :
    Contains quotes (IsSafeOperand kind v) [operandDraft kind v (backslashed v)] := by
  cases kind with
  | date =>
      refine (Contains.token rfl (by decide) sealed_date fun h => closesEarly_date ?_).congr ?_
      · exact Classical.not_not.1 h
      · exact ⟨fun h _ => h, fun h => h rfl⟩
  | string =>
      refine (Contains.sealedToken rfl (by decide) (sealed_backslashed _ v)).congr ?_
      exact ⟨fun _ h => (nomatch h), fun _ => trivial⟩
  | numeric =>
      have hbare : operandDraft .numeric v (backslashed v) =
          valueDraft stringQuote false v (backslashed v) v := by
        rw [backslashed_of_isNumeric (hnumber rfl)]
        rfl
      rw [hbare]
      refine (contains_valueDraft rules fun _ => hnumber rfl).congr ?_
      exact ⟨fun _ h => (nomatch h), fun _ => trivial⟩

/-! ## Patterns -/

theorem sealed_char (origin : Origin) {c : Char} (hquote : c ≠ '"') (hbackslash : c ≠ '\\') :
    Sealed stringQuote [(c, origin)] :=
  sealed_singleton hquote fun _ => hbackslash

theorem sealed_backslash_char (origin : Origin) (c : Char) :
    Sealed stringQuote [('\\', origin), (c, origin)] :=
  sealed_backslash rfl rfl (by decide)

/-- A quote or backslash that stands for itself is escaped. -/
theorem sealed_literalChar (origin : Origin) (c : Char) :
    Sealed stringQuote ((literalChar c).map fun x => (x, origin)) := by
  unfold literalChar
  split
  · exact (sealed_backslash_char origin '\\').append (sealed_backslash_char origin '\\')
  · next hbackslash =>
    split
    · exact sealed_backslash_char origin c
    · next hspecial =>
      refine sealed_char origin ?_ hbackslash
      rintro rfl
      exact hspecial (by decide)

theorem sealed_patternChar (origin : Origin) (m : Metacharacters) (c : Char) :
    Sealed stringQuote ((patternChar m c).map fun x => (x, origin)) := by
  unfold patternChar
  split
  · exact sealed_char origin (by decide) (by decide)
  · split
    · exact (sealed_char origin (by decide) (by decide)).append
        (sealed_char origin (by decide) (by decide))
    · exact sealed_literalChar origin c

/-- A pattern does not lead out of its string, whatever its metacharacters are. -/
theorem sealed_patternChars (origin : Origin) (m : Metacharacters) (cs : List Char) :
    Sealed stringQuote ((patternChars m cs).map fun x => (x, origin)) := by
  fun_induction patternChars m cs with
  | case1 => exact sealed_nil
  | case2 c => exact sealed_patternChar origin m c
  | case3 c d cs _ ih =>
      rw [List.map_append]
      exact (sealed_literalChar origin d).append ih
  | case4 c d cs _ ih =>
      rw [List.map_append]
      exact (sealed_patternChar origin m c).append ih

theorem toList_regex {m : Metacharacters} {pattern : String} (h : pattern ≠ "") :
    (regex m pattern).toList = '^' :: (patternChars m pattern.toList ++ ['$']) := by
  rw [regex, if_neg h]
  simp

theorem sealed_regex (m : Metacharacters) (pattern : String) :
    Sealed stringQuote (mark (.pattern pattern) (regex m pattern)) := by
  by_cases hempty : pattern = ""
  · rw [regex, if_pos hempty]
    exact sealed_nil
  · have hstart : Sealed stringQuote [('^', Origin.pattern pattern)] :=
      sealed_char _ (by decide) (by decide)
    have hend : Sealed stringQuote [('$', Origin.pattern pattern)] :=
      sealed_char _ (by decide) (by decide)
    rw [mark, toList_regex hempty, List.map_cons, List.map_append]
    exact hstart.append ((sealed_patternChars _ m pattern.toList).append hend)

/-! ## Tests -/

/-- Tests whose texts contain the request: no value ends a date. -/
def IsSafe (s : LayerSchema) : Test → Prop
  | .relation _ name (some v) _ => s.attributeType name = some .date → '`' ∉ v.toList
  | .between name lower upper =>
      s.attributeType name = some .date → '`' ∉ lower.toList ∧ '`' ∉ upper.toList
  | _ => True

theorem valueKind_eq_date_iff {layer : Layer} {name v : String} :
    valueKind layer name (some v) = .date ↔ layer.attributeType name = some .date := by
  unfold valueKind
  rw [Option.isSome_some, Bool.true_and]
  split
  · next h => exact ⟨fun _ => of_decide_eq_true h, fun _ => rfl⟩
  · next h =>
    refine ⟨fun hdate => ?_, fun hdate => absurd (decide_eq_true hdate) h⟩
    split at hdate
    · cases hdate
    · cases hdate

theorem rangeKind_eq_date_iff {layer : Layer} {name lower upper : String} :
    rangeKind layer name lower upper = .date ↔ layer.attributeType name = some .date := by
  unfold rangeKind
  split
  · next h => exact ⟨fun _ => h, fun _ => rfl⟩
  · next h =>
    refine ⟨fun hdate => ?_, fun hdate => absurd hdate h⟩
    split at hdate
    · cases hdate
    · cases hdate

theorem contains_compareDraft {s : LayerSchema} {r : Relation} {name : String}
    {value : Option String} {ignoreCase : Bool} (hname : IsCleanName name) :
    Contains quotes (IsSafe s (.relation r name value ignoreCase))
      (compareDraft s.toLayer r name value ignoreCase) := by
  unfold compareDraft
  rw [s.getD_map_escapeString]
  have hoperator : Plain quotes (" " ++ relation r ignoreCase ++ " ") := by
    cases r <;> cases ignoreCase <;> decide
  have hattribute := contains_attributeDraft rules hname
    (valueKind s.toLayer name value = .string)
  have hnumber : valueKind s.toLayer name value = .numeric →
      Number.isNumeric (value.getD "") = true := fun h =>
    Dialect.isNumber_getD_of_not_isString (valueKind_eq_numeric_iff.1 h).1
  have hoperand := contains_operandDraft hnumber
  have hcomparison := hattribute.cons ((Contains.words hoperator).cons hoperand)
  refine (hcomparison.parenthesized rules.parens).congr ?_
  -- A missing value is not compared as a date, whatever the attribute is.
  cases value with
  | none => exact ⟨fun _ => trivial, fun _ _ => List.not_mem_nil⟩
  | some v => exact imp_congr valueKind_eq_date_iff Iff.rfl

theorem contains_betweenDraft {s : LayerSchema} {name lower upper : String}
    (hname : IsCleanName name) :
    Contains quotes (IsSafe s (.between name lower upper))
      (betweenDraft s.toLayer name lower upper) := by
  have hnumbers : rangeKind s.toLayer name lower upper = .numeric →
      Number.isNumeric lower = true ∧ Number.isNumeric upper = true := fun h =>
    Dialect.isNumber_of_not_isStringRange (rangeKind_eq_numeric_iff.1 h).1
  have hlower : Plain quotes "  >= " := by decide
  have hupper : Plain quotes "  <= " := by decide
  have hand : Plain quotes " AND  " := by decide
  have hattribute := contains_attributeDraft rules hname
    (rangeKind s.toLayer name lower upper = .string)
  have hfirst := hattribute.cons ((Contains.words hlower).cons
    (contains_operandDraft fun h => (hnumbers h).1))
  have hsecond := hattribute.cons ((Contains.words hupper).cons
    (contains_operandDraft fun h => (hnumbers h).2))
  have hboth := hfirst.append ((Contains.words hand).cons hsecond)
  refine (hboth.parenthesized rules.parens).congr ?_
  unfold IsSafeOperand IsSafe
  rw [rangeKind_eq_date_iff, ← imp_and]
  rfl

theorem contains_likeDraft {name pattern : String} {m : Metacharacters} {ignoreCase : Bool}
    (hname : IsCleanName name) :
    Contains quotes True (likeDraft name pattern m ignoreCase) := by
  have hoperator : Plain quotes (if ignoreCase then " ~* " else " ~ ") := by
    cases ignoreCase <;> decide
  have hregex : Contains quotes True [.token stringQuote (.pattern pattern) (regex m pattern)] :=
    .sealedToken rfl (by decide) (sealed_regex m pattern)
  have hattribute := contains_attributeDraft rules hname true
  have hmatch := hattribute.cons ((Contains.words hoperator).cons hregex)
  exact hmatch.parenthesized rules.parens

/-! ## Spatial tests -/

theorem contains_callDraft {function : String} (hfunction : Plain quotes function) (shape : Shape)
    (distance : Option Float) : Contains quotes True (callDraft .none function shape distance) := by
  have hbracket : Contains quotes True [.token bracketQuote .dialect "shape"] :=
    .sealedToken rfl (by decide) (sealed_of_not_mem (by decide) (by decide) _)
  have hunquoted : '\'' ∉ (Engine.none.wkt shape).toList := shape.unquoted_wkt
  have hshape : Contains quotes True [.token shapeQuote .dialect (Engine.none.wkt shape)] :=
    .sealedToken rfl (by decide) (sealed_of_not_mem (by decide) hunquoted _)
  have hcomma : Plain quotes ", " := by decide
  have hfromText : Plain quotes "fromText" := by decide
  have htrue : Plain quotes " = TRUE" := by decide
  -- The call with and without a distance differs only in what follows the shape.
  have hcall : ∀ {rest}, Plain quotes rest → Contains quotes True (group function
      (.token bracketQuote .dialect "shape" :: words ", " ::
        group "fromText" [.token shapeQuote .dialect (Engine.none.wkt shape)] rest) " = TRUE") := by
    intro rest hrest
    have hfrom := hshape.group hfromText hrest rules.parens
    have harguments := hbracket.cons ((Contains.words hcomma).cons hfrom)
    exact harguments.group hfunction htrue rules.parens
  cases distance with
  | none => exact hcall plain_empty
  | some d =>
      have hdistance : Plain quotes (Number.text d) :=
        plain_of_isNumberChar rules.number fun c hc => Number.isNumberChar_of_mem_text hc
      exact hcall (hcomma.append hdistance)

theorem contains_inBoxDraft (layer : Layer) (r : Rectangle) (crs : Option String) :
    Contains quotes True (inBoxDraft layer .none r crs) := by
  have hnot : Plain quotes "NOT " := by decide
  have hfunction : Plain quotes "intersects" := by decide
  have hcall := contains_callDraft hfunction (boxShape layer .none r crs) none
  have hinner := (Contains.words hnot).cons (hcall.parenthesized rules.parens)
  have houter := (Contains.words hnot).cons (hinner.parenthesized rules.parens)
  exact houter.parenthesized rules.parens

theorem plain_functionName (op : SpatialOperator) : Plain quotes (functionName op) := by
  cases op <;> decide +kernel

theorem contains_toShapeDraft (layer : Layer) (op : SpatialOperator) (shape : Shape)
    (crs : Option String) (distance : Option Distance) :
    Contains quotes True (toShapeDraft layer .none op shape crs distance) := by
  unfold toShapeDraft
  dsimp only
  split
  · exact contains_callDraft (plain_functionName op) _ _
  · exact contains_callDraft (plain_functionName op) _ _

/-! ## Expressions -/

theorem confines (s : LayerSchema) :
    Confines quotes (IsCleanTest s.idAttribute) (IsSafe s) (draft s .none) where
  test {t fs} hclean ht := by
    cases t with
    | relation r name value ignoreCase =>
        cases ht
        exact contains_compareDraft (hclean name List.mem_cons_self)
    | between name lower upper =>
        cases ht
        exact contains_betweenDraft (hclean name List.mem_cons_self)
    | like name pattern m ignoreCase =>
        cases ht
        exact contains_likeDraft (hclean name List.mem_cons_self)
    | featureIds tokens => exact contains_featureIdsDraft rules (by decide) hclean ht
    | inBox rectangle crs =>
        cases ht
        exact contains_inBoxDraft s.toLayer rectangle crs
    | toShape op shape crs distance =>
        cases ht
        exact contains_toShapeDraft s.toLayer op shape crs distance
  negate h := by
    have hnot : Plain quotes "NOT " := by decide
    exact ((Contains.words hnot).cons h).parenthesized rules.parens
  join op hx hy := by
    have hkeyword : Plain quotes (" " ++ op.keyword ++ " ") := by cases op <;> decide
    exact (hx.append ((Contains.words hkeyword).cons hy)).parenthesized rules.parens
  besideBox h := h
  inBox _ _ := trivial
  toShape _ _ _ _ := trivial

/-- Without a projection library, an expression contains its request exactly if no value that is
compared with a date has a backtick in it. -/
theorem contained_iff_safe_dates {s : LayerSchema} {p : Predicate} {text : String}
    (hnames : ∀ name, p.IsNamed s.idAttribute name → IsCleanName name)
    (h : Dialect.common.compile s.toLayer .none p = .ok (some text)) :
    ∃ fs, (draft s .none).compile p = .ok fs ∧ (marked fs).map Prod.fst = text.toList ∧
      (Contained quotes (marked fs) ↔ ∀ t ∈ p.tests, IsSafe s t) := by
  rw [Dialect.compile_eq_ok_some_iff] at h
  obtain ⟨fs, hfs, rfl⟩ := (translation s.toLayer .none).exists_compile h
  refine ⟨fs, hfs, map_fst_marked fs, Contains.contained_iff ?_⟩
  exact (confines s).compile hfs fun t ht name hname =>
    hnames name (Predicate.isNamed_of_mem_tests ht hname)

/-- A backtick leads out of a date. -/
theorem not_contained_backtick_in_date :
    ∃ fs, (draft { name := "roads", fields := [("D", .date)] } .none).compile
        (.compare (.relation .eq) "D" (some "2020`) OR (`1")) = .ok fs ∧
      (marked fs).map Prod.fst = "([D] = `2020`) OR (`1`)".toList ∧
      ¬Contained quotes (marked fs) := by
  have hnames : ∀ name, Predicate.IsNamed none
      (.compare (.relation .eq) "D" (some "2020`) OR (`1")) name → IsCleanName name := by
    rintro name (hname | hname)
    · have heq : name = "D" := by simpa [Predicate.compare, Predicate.nodes] using hname
      rw [heq]
      decide
    · cases hname
  obtain ⟨fs, hfs, htext, hcontained⟩ :=
    @contained_iff_safe_dates { name := "roads", fields := [("D", .date)] } _ _ hnames rfl
  refine ⟨fs, hfs, htext, fun h => ?_⟩
  exact hcontained.1 h _ List.mem_cons_self rfl (by decide)

end FilterEncoding.Common
