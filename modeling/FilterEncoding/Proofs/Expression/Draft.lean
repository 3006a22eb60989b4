import FilterEncoding.Expression.Dialect
import FilterEncoding.Layer.Schema
import FilterEncoding.Proofs.Expression.Expressing
import FilterEncoding.Proofs.Number.Characters
import FilterEncoding.Proofs.Number.Literals
import FilterEncoding.Proofs.Reading.Fragment

/-!
# Drafts of expressions

What the drafts of the dialects have in common: the parts of a request that get into the text of an
expression, values, and lists of alternatives.
-/

namespace FilterEncoding

open Reading

namespace LayerSchema

variable (s : LayerSchema)

@[simp] theorem connection_toLayer : s.toLayer.connection = s.connection := rfl

@[simp] theorem idAttribute_toLayer : s.toLayer.idAttribute = s.idAttribute := rfl

@[simp] theorem quoteIdentifier_toLayer : s.toLayer.quoteIdentifier = quotedIdentifier := rfl

@[simp] theorem escapeSqlLiteral_toLayer : s.toLayer.escapeSqlLiteral = doubled '\'' := rfl

@[simp] theorem escapeString_toLayer : s.toLayer.escapeString = backslashed := rfl

/-- A missing value is written as an empty one. -/
theorem getD_map_escapeString (value : Option String) :
    (value.map s.toLayer.escapeString).getD "" = backslashed (value.getD "") := by
  cases value with
  | none => rfl
  | some v => rfl

theorem getD_map_escapeSqlLiteral (value : Option String) :
    (value.map s.toLayer.escapeSqlLiteral).getD "" = doubled '\'' (value.getD "") := by
  cases value with
  | none => rfl
  | some v => rfl

end LayerSchema

/-! ## Values that are written as numbers -/

namespace Dialect

variable {d : Dialect} {layer : Layer}

/-- What one dialect takes as a number is one in the wide sense. -/
theorem isNumeric_of_isNumber {v : String} (h : d.isNumber v = true) :
    Number.isNumeric v = true := by
  cases d with
  | sql => exact Number.isNumeric_of_isDecimal h
  | _ => exact h

theorem isNumber_of_not_isString {name v : String} (h : d.isString layer name (some v) = false) :
    d.isNumber v = true := by
  rw [isString, Bool.or_eq_false_iff, Bool.not_eq_false'] at h
  exact h.2

/-- A missing value is a string. -/
theorem isNumber_getD_of_not_isString {name : String} {value : Option String}
    (h : d.isString layer name value = false) : d.isNumber (value.getD "") = true := by
  cases value with
  | none => cases h
  | some v => exact isNumber_of_not_isString h

/-- Both bounds of a range that are not strings are numbers. -/
theorem isNumber_of_not_isStringRange {name lower upper : String}
    (h : d.isStringRange layer name lower upper = false) :
    d.isNumber lower = true ∧ d.isNumber upper = true := by
  rw [isStringRange, Bool.or_eq_false_iff, Bool.not_eq_false'] at h
  exact ⟨isNumber_of_not_isString h.1, h.2⟩

theorem idList?_eq_some {tokens ids : List String} {isString : Bool}
    (h : d.idList? tokens = some (ids, isString)) :
    ids = FeatureId.bareIds tokens ∧ (isString = false → ∀ id ∈ ids, d.isNumber id = true) := by
  unfold idList? at h
  split at h
  · cases h
  · cases h
    refine ⟨rfl, fun hany id hid => ?_⟩
    have hid' := List.any_eq_false.1 hany id hid
    rwa [Bool.not_eq_true, Bool.not_eq_false'] at hid'

end Dialect

/-! ## The parts of a request -/

/-- The parts of a request that a test is about. -/
def Test.origins (idAttribute : Option String) : Test → List Origin
  | .relation _ name value _ => [.name name, .value (value.getD "")]
  | .between name lower upper => [.name name, .value lower, .value upper]
  | .like name pattern m _ => [.name name, .pattern pattern, .escape m.escape]
  | .featureIds tokens =>
      idAttribute.toList.map .name ++ (FeatureId.bareIds tokens).map .value
  | .inBox _ _ | .toShape _ _ _ _ => []

namespace Predicate

/-- The parts of a request that an expression is about. -/
def origins (idAttribute : Option String) (p : Predicate) : List Origin :=
  p.tests.flatMap (·.origins idAttribute)

theorem mem_origins_iff {idAttribute : Option String} {p : Predicate} {origin : Origin} :
    origin ∈ p.origins idAttribute ↔ ∃ test ∈ p.tests, origin ∈ test.origins idAttribute :=
  List.mem_flatMap

/-- A name is that of a node of the predicate or of the attribute with the ids. -/
def IsNamed (idAttribute : Option String) (p : Predicate) (name : String) : Prop :=
  property name ∈ p.nodes ∨ idAttribute = some name

theorem IsNamed.mono {idAttribute : Option String} {p q : Predicate} {name : String}
    (h : p.IsNamed idAttribute name) (hnodes : p.nodes ⊆ q.nodes) : q.IsNamed idAttribute name :=
  h.imp_left fun hmem => hnodes hmem

theorem isNamed_of_test? {idAttribute : Option String} {leaf : Predicate} {test : Test}
    {name : String} (htest : leaf.test? = some test)
    (hname : Origin.name name ∈ test.origins idAttribute) : leaf.IsNamed idAttribute name := by
  unfold test? at htest
  split at htest
  · cases htest
    exact .inl (by simpa [Test.origins, nodes] using hname)
  · cases htest
    exact .inl (by simpa [Test.origins, nodes] using hname)
  · obtain ⟨m, -, rfl⟩ := Option.map_eq_some_iff.1 htest
    exact .inl (by simpa [Test.origins, nodes] using hname)
  · cases htest
    exact .inr (by simpa [Test.origins] using hname)
  · cases htest
    cases hname
  · cases htest
    cases hname
  · cases htest

/-- The names in an expression are names in the predicate. -/
theorem isNamed_of_mem_tests {idAttribute : Option String} {p : Predicate} {test : Test}
    {name : String} (htest : test ∈ p.tests) (hname : Origin.name name ∈ test.origins idAttribute) :
    p.IsNamed idAttribute name := by
  induction p with
  -- A test of the predicate is one of an operand, whose nodes are nodes of the predicate.
  | unary op operand ih => exact (ih htest).mono (List.subset_cons_self _ _)
  | binary op left right ihLeft ihRight =>
      have hleft : left.nodes ⊆ (binary op left right).nodes := fun n hn =>
        List.mem_cons_of_mem _ (List.mem_append_left _ hn)
      have hright : right.nodes ⊆ (binary op left right).nodes := fun n hn =>
        List.mem_cons_of_mem _ (List.mem_append_right _ hn)
      cases op with
      | not => exact (ihLeft htest).mono hleft
      | and =>
          rcases List.mem_append.1 htest with h | h
          · exact (ihLeft h).mono hleft
          · exact (ihRight h).mono hright
      | or =>
          rcases List.mem_append.1 htest with h | h
          · exact (ihLeft h).mono hleft
          · exact (ihRight h).mono hright
  | _ => exact isNamed_of_test? (Option.mem_toList.1 htest) hname

theorem isNamed_of_mem_origins {idAttribute : Option String} {p : Predicate} {name : String}
    (h : Origin.name name ∈ p.origins idAttribute) : p.IsNamed idAttribute name := by
  obtain ⟨test, htest, hname⟩ := mem_origins_iff.1 h
  exact isNamed_of_mem_tests htest hname

end Predicate

namespace Reading

/-! ## Numbers outside tokens -/

theorem opensNone_of_isNumberChar {quotes : List Quote}
    (hquotes : ∀ quote ∈ quotes, Number.isNumberChar quote.opening = false) {text : String}
    (h : ∀ c ∈ text.toList, Number.isNumberChar c = true) : OpensNone quotes text := by
  intro c hc
  rw [List.find?_eq_none]
  intro quote hquote heq
  have hopening := hquotes quote hquote
  rw [beq_iff_eq.1 heq, h c hc] at hopening
  cases hopening

theorem unparenthesized_of_isNumberChar {cs : List Char}
    (h : ∀ c ∈ cs, Number.isNumberChar c = true) : Unparenthesized cs := by
  intro c hc
  constructor
  · rintro rfl
    exact absurd (h _ hc) (by decide)
  · rintro rfl
    exact absurd (h _ hc) (by decide)

/-- A number neither opens a token nor contains a parenthesis. -/
theorem plain_of_isNumberChar {quotes : List Quote}
    (hquotes : ∀ quote ∈ quotes, Number.isNumberChar quote.opening = false) {text : String}
    (h : ∀ c ∈ text.toList, Number.isNumberChar c = true) : Plain quotes text :=
  ⟨opensNone_of_isNumberChar hquotes h, unparenthesized_of_isNumberChar h⟩

/-! ## Values -/

/-- A value, between quotes or as a bare number. -/
def valueDraft (quote : Quote) (quoted : Bool) (value inQuotes bare : String) : Fragment :=
  if quoted then .token quote (.value value) inQuotes else .bare (.value value) bare

@[simp] theorem valueDraft_true (quote : Quote) (value inQuotes bare : String) :
    valueDraft quote true value inQuotes bare = .token quote (.value value) inQuotes := rfl

@[simp] theorem valueDraft_false (quote : Quote) (value inQuotes bare : String) :
    valueDraft quote false value inQuotes bare = .bare (.value value) bare := rfl

/-! ## Alternatives -/

/-- The fragments of alternatives. -/
def alternatives : List (List Fragment) → List Fragment
  | [] => []
  | [fs] => fs
  | fs :: gs :: rest => fs ++ words " OR " :: alternatives (gs :: rest)

theorem render_alternatives (drafts : List (List Fragment)) :
    render (alternatives drafts) = String.intercalate " OR " (drafts.map render) := by
  fun_induction alternatives drafts with
  | case1 => rfl
  | case2 fs => rfl
  | case3 fs gs rest ih =>
      rw [render_append, render_cons, ih, Fragment.text, List.map_cons, List.map_cons,
        List.map_cons, String.intercalate_cons_cons, String.append_assoc]

/-- Alternatives in parentheses. -/
def groupOfAlternatives (drafts : List (List Fragment)) : List Fragment :=
  group "" (alternatives drafts) ""

theorem render_groupOfAlternatives (drafts : List (List Fragment)) :
    render (groupOfAlternatives drafts) = anyOf (drafts.map render) := by
  rw [groupOfAlternatives, render_group, render_alternatives, anyOf, String.empty_append,
    String.append_empty]

/-- Alternatives that are drafts of the texts for the same items. -/
theorem render_groupOfAlternatives_map {α : Type} {f : α → List Fragment} {g : α → String}
    {xs : List α} (h : ∀ x ∈ xs, render (f x) = g x) :
    render (groupOfAlternatives (xs.map f)) = anyOf (xs.map g) := by
  have htexts : (xs.map f).map render = xs.map g := by
    rw [List.map_map]
    exact List.map_congr_left h
  rw [render_groupOfAlternatives, htexts]

/-- The comparisons of the id attribute with all ids of a list, drafted one by one. -/
def featureIdsDraft (d : Dialect) (layer : Layer)
    (compareId : String → Bool → String → List Fragment) (tokens : List String) :
    Except Obstacle (List Fragment) :=
  match layer.idAttribute, d.idList? tokens with
  | some column, some (ids, quoted) => .ok (groupOfAlternatives (ids.map (compareId column quoted)))
  | _, _ => .error .inexpressible

theorem render_featureIdsDraft {d : Dialect} {layer : Layer}
    {compareId : String → Bool → String → List Fragment} {text : String → Bool → String → String}
    (h : ∀ column quoted id, render (compareId column quoted id) = text column quoted id)
    (tokens : List String) :
    render <$> featureIdsDraft d layer compareId tokens =
      match layer.idAttribute, d.idList? tokens with
      | some column, some (ids, quoted) => .ok (anyOf (ids.map (text column quoted)))
      | _, _ => .error .inexpressible := by
  unfold featureIdsDraft
  cases layer.idAttribute with
  | none => rfl
  | some column =>
      cases d.idList? tokens with
      | none => rfl
      | some list =>
          exact congrArg Except.ok (render_groupOfAlternatives_map fun id _ => h column list.2 id)

/-- The ids share one decision: they are all strings, or all of them are numbers. -/
theorem exists_of_featureIdsDraft_eq_ok {d : Dialect} {layer : Layer}
    {compareId : String → Bool → String → List Fragment} {tokens : List String}
    {fs : List Fragment} (h : featureIdsDraft d layer compareId tokens = .ok fs) :
    ∃ column quoted, layer.idAttribute = some column ∧
      (quoted = false → ∀ id ∈ FeatureId.bareIds tokens, d.isNumber id = true) ∧
      fs = groupOfAlternatives ((FeatureId.bareIds tokens).map (compareId column quoted)) := by
  unfold featureIdsDraft at h
  split at h
  · next column ids quoted hcolumn hids =>
    cases h
    obtain ⟨rfl, hnumbers⟩ := Dialect.idList?_eq_some hids
    exact ⟨column, quoted, hcolumn, hnumbers, rfl⟩
  · cases h

theorem forall_mem_alternatives {drafts : List (List Fragment)} {P : Fragment → Prop}
    (hor : P (words " OR ")) (h : ∀ fs ∈ drafts, ∀ f ∈ fs, P f) :
    ∀ f ∈ alternatives drafts, P f := by
  fun_induction alternatives drafts with
  | case1 => exact fun f hf => by cases hf
  | case2 fs => exact h fs List.mem_cons_self
  | case3 fs gs rest ih =>
      intro f hf
      rw [List.mem_append, List.mem_cons] at hf
      rcases hf with hf | rfl | hf
      · exact h fs List.mem_cons_self f hf
      · exact hor
      · exact ih (fun gs hgs => h gs (List.mem_cons_of_mem fs hgs)) f hf

theorem nested_outside_alternatives {drafts : List (List Fragment)}
    (h : ∀ fs ∈ drafts, Nested (outside fs)) : Nested (outside (alternatives drafts)) := by
  fun_induction alternatives drafts with
  | case1 => exact Nested.nil
  | case2 fs => exact h fs List.mem_cons_self
  | case3 fs gs rest ih =>
      have hor : Nested " OR ".toList := by decide
      rw [outside_append, outside_bare_cons]
      exact (h fs List.mem_cons_self).append
        (hor.append (ih fun gs hgs => h gs (List.mem_cons_of_mem fs hgs)))

theorem separated_alternatives {drafts : List (List Fragment)}
    (h : ∀ fs ∈ drafts, Separated fs) : Separated (alternatives drafts) := by
  fun_induction alternatives drafts with
  | case1 => trivial
  | case2 fs => exact h fs List.mem_cons_self
  | case3 fs gs rest ih =>
      exact (h fs List.mem_cons_self).append
        (ih fun gs hgs => h gs (List.mem_cons_of_mem fs hgs))

end Reading

end FilterEncoding
