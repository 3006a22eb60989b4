import FilterEncoding.Proofs.Reading.Containment
import Mathlib.Data.List.Basic

/-!
# Dialects with bracketed attributes

The two dialects without SQL write attributes in brackets and strings in double quotes.  A clean
attribute name does not lead out of the brackets, and an escaped value does not lead out of the
quotes.  Lists of feature ids differ in nothing but the sign of equality.
-/

namespace FilterEncoding

/-- Escaping does not touch a text without quotes and backslashes. -/
theorem backslashed_eq_self {s : String} (h : ∀ c ∈ s.toList, c ≠ '\\' ∧ c ≠ '"' ∧ c ≠ '\'') :
    backslashed s = s := by
  have hsingle : ∀ c ∈ s.toList,
      (if c = '\\' ∨ c = '"' ∨ c = '\'' then ['\\', c] else [c]) = [c] := fun c hc =>
    if_neg (by simpa only [not_or] using h c hc)
  rw [backslashed, List.flatMap_congr hsingle, List.flatMap_singleton', String.ofList_toList]

theorem backslashed_of_isNumeric {v : String} (h : Number.isNumeric v = true) :
    backslashed v = v := by
  refine backslashed_eq_self fun c hc => ?_
  have hnumber := Number.isNumberChar_of_isNumeric h hc
  refine ⟨?_, ?_, ?_⟩
  · rintro rfl
    exact absurd hnumber (by decide)
  · rintro rfl
    exact absurd hnumber (by decide)
  · rintro rfl
    exact absurd hnumber (by decide)

namespace Bracketed

open Reading

/-- A string, in which a backslash takes the next character with it. -/
def stringQuote : Quote := ⟨'"', '"', .backslash⟩

/-- The brackets of an attribute. -/
def bracketQuote : Quote := ⟨'[', ']', .never⟩

/-- An attribute; in a comparison of strings it is a string too. -/
def attributeDraft (isString : Bool) (name : String) : Fragment :=
  if isString then .token stringQuote (.name name) ("[" ++ name ++ "]")
  else .token bracketQuote (.name name) name

/-- The comparison of the id attribute with one id.  A bare id is not escaped. -/
def compareIdDraft (layer : Layer) (sign column : String) (quoted : Bool) (id : String) :
    List Fragment :=
  group "" [attributeDraft quoted column, words sign,
    valueDraft stringQuote quoted id (layer.escapeString id) id] ""

/-- An attribute name that does not lead out of brackets or double quotes. -/
def IsCleanName (name : String) : Prop :=
  ∀ c ∈ name.toList, c ∉ ['[', ']', '"', '\\']

instance (name : String) : Decidable (IsCleanName name) :=
  List.decidableBAll _ name.toList

/-- All attribute names of a test are clean. -/
def IsCleanTest (idAttribute : Option String) (t : Test) : Prop :=
  ∀ name, Origin.name name ∈ t.origins idAttribute → IsCleanName name

/-- Quoting rules that strings, brackets, numbers and parentheses agree with. -/
structure Rules (quotes : List Quote) : Prop where
  string : quotes.find? (·.opening == '"') = some stringQuote
  bracket : quotes.find? (·.opening == '[') = some bracketQuote
  number : ∀ quote ∈ quotes, Number.isNumberChar quote.opening = false
  parens : OpensNone quotes "(" ∧ OpensNone quotes ")"
  alternatives : Plain quotes " OR "

variable {quotes : List Quote}

@[simp] theorem text_attributeDraft_true (name : String) :
    (attributeDraft true name).text = "\"[" ++ name ++ "]\"" := by
  apply String.toList_inj.1
  simp [attributeDraft, stringQuote]

@[simp] theorem text_attributeDraft_false (name : String) :
    (attributeDraft false name).text = "[" ++ name ++ "]" := rfl

theorem render_compareIdDraft (layer : Layer) (sign column : String) (quoted : Bool)
    (id : String) : render (compareIdDraft layer sign column quoted id) =
      if quoted then
        "(\"[" ++ column ++ ("]\"" ++ sign ++ "\"") ++ layer.escapeString id ++ "\")"
      else "([" ++ column ++ ("]" ++ sign) ++ id ++ ")" := by
  apply String.toList_inj.1
  unfold compareIdDraft
  cases quoted with
  | true => simp [stringQuote]
  | false => simp

/-! ## What stays inside a token -/

theorem sealed_stringQuote {origin : Origin} {text : String}
    (h : ∀ c ∈ text.toList, c ≠ '"' ∧ c ≠ '\\') : Sealed stringQuote (mark origin text) :=
  sealed_of_forall (fun c hc => (h c.1 (fst_of_mem_mark hc)).1)
    fun _ c hc => (h c.1 (fst_of_mem_mark hc)).2

theorem sealed_backslashed (origin : Origin) (s : String) :
    Sealed stringQuote (mark origin (backslashed s)) := by
  refine sealed_of_flatMap fun c _ => ?_
  split
  · exact sealed_backslash rfl rfl (by decide)
  · next hc =>
    rw [not_or, not_or] at hc
    exact sealed_singleton hc.2.1 fun _ => hc.1

theorem contains_attributeDraft (hrules : Rules quotes) {name : String} (hname : IsCleanName name)
    (isString : Bool) : Contains quotes True [attributeDraft isString name] := by
  cases isString with
  | true =>
      refine .sealedToken hrules.string (by decide) (sealed_stringQuote fun c hc => ?_)
      have hbrackets : ("[" ++ name ++ "]").toList = '[' :: (name.toList ++ [']']) := by simp
      rw [hbrackets, List.mem_cons, List.mem_append, List.mem_singleton] at hc
      rcases hc with rfl | hc | rfl
      · decide
      · have hclean := hname c hc
        constructor
        · rintro rfl
          exact hclean (by decide)
        · rintro rfl
          exact hclean (by decide)
      · decide
  | false =>
      have hclosing : ']' ∉ name.toList := fun hc => hname ']' hc (by decide)
      exact .sealedToken hrules.bracket (by decide) (sealed_of_not_mem (by decide) hclosing _)

theorem contains_valueDraft (hrules : Rules quotes) {quoted : Bool} {v : String}
    (hnumber : quoted = false → Number.isNumeric v = true) :
    Contains quotes True [valueDraft stringQuote quoted v (backslashed v) v] := by
  cases quoted with
  | true => exact .sealedToken hrules.string (by decide) (sealed_backslashed _ v)
  | false =>
      have hv := hnumber rfl
      refine .bare (plain_of_isNumberChar hrules.number fun c hc => ?_) ?_
      · exact Number.isNumberChar_of_isNumeric hv hc
      · show ¬Number.isNumeric v = false
        rw [hv]
        exact Bool.noConfusion

/-- The comparison of an attribute with a value. -/
theorem contains_comparison (hrules : Rules quotes) {quoted : Bool} {name op v : String}
    (hname : IsCleanName name) (hop : Plain quotes op)
    (hnumber : quoted = false → Number.isNumeric v = true) :
    Contains quotes True [attributeDraft quoted name, words op,
      valueDraft stringQuote quoted v (backslashed v) v] :=
  (contains_attributeDraft hrules hname quoted).cons
    ((Contains.words hop).cons (contains_valueDraft hrules hnumber))

theorem contains_featureIdsDraft (hrules : Rules quotes) {d : Dialect} {s : LayerSchema}
    {sign : String} {tokens : List String} {fs : List Fragment} (hsign : Plain quotes sign)
    (hclean : IsCleanTest s.idAttribute (.featureIds tokens))
    (h : featureIdsDraft d s.toLayer (compareIdDraft s.toLayer sign) tokens = .ok fs) :
    Contains quotes True fs := by
  obtain ⟨column, quoted, hcolumn, hnumbers, rfl⟩ := exists_of_featureIdsDraft_eq_ok h
  rw [s.idAttribute_toLayer] at hcolumn
  have hname : IsCleanName column := hclean column (by rw [hcolumn]; exact List.mem_cons_self)
  refine (Contains.alternatives hrules.alternatives fun fs hfs => ?_).parenthesized hrules.parens
  obtain ⟨id, hid, rfl⟩ := List.mem_map.1 hfs
  have hnumber : quoted = false → Number.isNumeric id = true := fun hnot =>
    Dialect.isNumeric_of_isNumber (hnumbers hnot id hid)
  exact (contains_comparison hrules hname hsign hnumber).parenthesized hrules.parens

end Bracketed

end FilterEncoding
