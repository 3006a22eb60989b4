import FilterEncoding.Predicate.Document
import FilterEncoding.Proofs.Chars.Trim
import FilterEncoding.Proofs.Readers
import FilterEncoding.Proofs.Xml.Reading

/-!
# The predicates that documents give

A document that is read gives a predicate of a narrow form: every connective has its operands, every
operator its property and an operand of the right kind, and nothing is empty that must not be.

* `Predicate.WellFormed` — the form, one case for each kind of node.
* `Predicate.wellFormed_ofNode` — an element gives a predicate of this form, unless some node below
  it could not be read.
* `Predicate.wellFormed_ofDocument` — so does every document that is read.
-/

namespace FilterEncoding

open FilterEncoding.Geometry (Rectangle Shape)
open FilterEncoding.Xml (Node)

/-- A text that is not empty and has no blanks around it. -/
def IsTrimmed (s : String) : Prop :=
  s ≠ "" ∧ Text.trim s = s

namespace Predicate

/-- The form of a predicate that is read from a document.  Properties, literals, bounds, boxes and
geometries occur only as operands of their operators, and nothing is undefined. -/
inductive WellFormed : Predicate → Prop
  | negation {operand : Predicate} (hoperand : WellFormed operand) :
      WellFormed (unary .not operand)
  | junction {op : Connective} {left right : Predicate} (hop : op ≠ .not)
      (hleft : WellFormed left) (hright : WellFormed right) : WellFormed (binary op left right)
  | relation {r : Relation} {name : String} {value : Option String} {ignoreCase : Bool}
      (hname : IsTrimmed name) (hvalue : value ≠ some "") :
      WellFormed (comparison (.relation r) (property name) (literal value ignoreCase) none)
  /-- The literal and the metacharacters of a pattern agree about letter case. -/
  | like {name : String} {value : Option String} {options : LikeOptions}
      (hname : IsTrimmed name) (hvalue : value ≠ some "") :
      WellFormed
        (comparison .like (property name) (literal value options.ignoreCase) (some options))
  | between {name lower upper : String} (hname : IsTrimmed name) (hlower : IsTrimmed lower)
      (hupper : IsTrimmed upper) :
      WellFormed (comparison .between (property name) (bounds lower upper) none)
  | box {name : String} {rectangle : Rectangle} {crs : Option String} (hname : IsTrimmed name) :
      WellFormed (spatial .bbox (property name) (box rectangle crs))
  | geometry {op : SpatialOperator} {name : String} {shape : Shape} {crs : Option String}
      {distance : Option Distance} (hop : op ≠ .bbox) (hname : IsTrimmed name)
      (hdistance : distance.isSome ↔ op = .dWithin ∨ op = .beyond) :
      WellFormed (spatial op (property name) (geometry shape crs distance))
  | featureIds {tokens : List String} (htokens : tokens ≠ []) (hempty : "" ∉ tokens) :
      WellFormed (featureIds tokens)

/-! ## Texts that are read -/

theorem ne_empty_of_nonEmpty {s t : String} (h : nonEmpty s = some t) : t ≠ "" ∧ t = s := by
  unfold nonEmpty at h
  split at h
  · cases h
  · next hs =>
    cases h
    exact ⟨hs, rfl⟩

theorem isTrimmed_of_nonEmpty_trim {s t : String} (h : nonEmpty (Text.trim s) = some t) :
    IsTrimmed t := by
  obtain ⟨hne, rfl⟩ := ne_empty_of_nonEmpty h
  exact ⟨hne, Text.trim_trim s⟩

theorem isTrimmed_of_propertyName? {n : Node} {name : String} (h : propertyName? n = some name) :
    IsTrimmed name := by
  obtain ⟨child, -, hchild⟩ := Option.bind_eq_some_iff.1 h
  obtain ⟨text, -, htext⟩ := Option.bind_eq_some_iff.1 hchild
  exact isTrimmed_of_nonEmpty_trim htext

theorem isTrimmed_of_bound? {n : Node} {s : String} (h : bound? n = some s) : IsTrimmed s := by
  obtain ⟨text, -, htext⟩ := Option.bind_eq_some_iff.1 h
  exact isTrimmed_of_nonEmpty_trim htext

/-- An empty text is no value. -/
theorem bind_nonEmpty_ne (text : Option String) : text.bind nonEmpty ≠ some "" := by
  intro h
  obtain ⟨s, -, hs⟩ := Option.bind_eq_some_iff.1 h
  exact (ne_empty_of_nonEmpty hs).1 rfl

theorem ignoreCase_of_likeOptions? {n : Node} {options : LikeOptions}
    (h : likeOptions? n = some options) : options.ignoreCase = ignoresCase n := by
  obtain ⟨wildcard, -, h⟩ := Option.bind_eq_some_iff.1 h
  obtain ⟨single, -, h⟩ := Option.bind_eq_some_iff.1 h
  obtain ⟨escape, -, h⟩ := Option.bind_eq_some_iff.1 h
  cases h
  rfl

/-! ## Elements that are no connective -/

theorem wellFormed_of_comparisonOf? {op : ComparisonOperator} {n : Node} {p : Predicate}
    (h : comparisonOf? op n = some p) : p.WellFormed := by
  obtain ⟨name, hname, h⟩ := Option.bind_eq_some_iff.1 h
  have hname := isTrimmed_of_propertyName? hname
  cases op with
  | relation r =>
      obtain ⟨value, -, h⟩ := Option.bind_eq_some_iff.1 h
      cases h
      exact .relation hname (bind_nonEmpty_ne _)
  | like =>
      obtain ⟨pattern, -, h⟩ := Option.bind_eq_some_iff.1 h
      obtain ⟨options, hoptions, h⟩ := Option.bind_eq_some_iff.1 h
      cases h
      rw [← ignoreCase_of_likeOptions? hoptions]
      exact .like hname (bind_nonEmpty_ne _)
  | between =>
      obtain ⟨lower, hlower, h⟩ := Option.bind_eq_some_iff.1 h
      obtain ⟨upper, hupper, h⟩ := Option.bind_eq_some_iff.1 h
      cases h
      obtain ⟨_, -, hlower⟩ := Option.bind_eq_some_iff.1 hlower
      obtain ⟨_, -, hupper⟩ := Option.bind_eq_some_iff.1 hupper
      exact .between hname (isTrimmed_of_bound? hlower) (isTrimmed_of_bound? hupper)

theorem exists_of_boxOf? {n : Node} {p : Predicate} (h : boxOf? n = some p) :
    ∃ rectangle crs, p = box rectangle crs := by
  unfold boxOf? at h
  split at h
  · obtain ⟨⟨rectangle, crs⟩, -, rfl⟩ := Option.map_eq_some_iff.1 h
    exact ⟨rectangle, crs, rfl⟩
  · obtain ⟨⟨rectangle, crs⟩, -, rfl⟩ := Option.map_eq_some_iff.1 h
    exact ⟨rectangle, crs, rfl⟩
  · cases h

theorem isDistance_iff (op : SpatialOperator) :
    op.isDistance = true ↔ op = .dWithin ∨ op = .beyond := by
  unfold SpatialOperator.isDistance
  rw [Bool.or_eq_true, decide_eq_true_iff, decide_eq_true_iff, or_comm]

/-- A shape comes with a distance exactly if its operator needs one. -/
theorem exists_of_geometryOf? {op : SpatialOperator} {n : Node} {p : Predicate}
    (h : geometryOf? op n = some p) :
    ∃ shape crs distance, p = geometry shape crs distance ∧
      (distance.isSome ↔ op = .dWithin ∨ op = .beyond) := by
  rw [← isDistance_iff]
  obtain ⟨element, -, h⟩ := Option.bind_eq_some_iff.1 h
  obtain ⟨⟨shape, crs⟩, -, h⟩ := Option.bind_eq_some_iff.1 h
  dsimp only at h
  by_cases hop : op.isDistance = true
  · rw [if_pos hop] at h
    obtain ⟨distance, -, h⟩ := Option.bind_eq_some_iff.1 h
    cases h
    exact ⟨shape, crs, some distance, rfl, iff_of_true rfl hop⟩
  · rw [if_neg hop] at h
    cases h
    exact ⟨shape, crs, none, rfl, iff_of_false Bool.false_ne_true hop⟩

theorem wellFormed_of_spatialOf? {op : SpatialOperator} {n : Node} {p : Predicate}
    (h : spatialOf? op n = some p) : p.WellFormed := by
  obtain ⟨name, hname, h⟩ := Option.bind_eq_some_iff.1 h
  have hname := isTrimmed_of_propertyName? hname
  dsimp only at h
  by_cases hop : op = .bbox
  · rw [if_pos hop] at h
    obtain ⟨operand, hoperand, h⟩ := Option.bind_eq_some_iff.1 h
    obtain ⟨rectangle, crs, rfl⟩ := exists_of_boxOf? hoperand
    cases h
    subst hop
    exact .box hname
  · rw [if_neg hop] at h
    obtain ⟨operand, hoperand, h⟩ := Option.bind_eq_some_iff.1 h
    obtain ⟨shape, crs, distance, rfl, hdistance⟩ := exists_of_geometryOf? hoperand
    cases h
    exact .geometry hop hname hdistance

theorem ne_empty_of_featureId? {n : Node} {id : String} (h : featureId? n = some id) : id ≠ "" := by
  obtain ⟨_, -, h⟩ := Option.bind_eq_some_iff.1 h
  exact (ne_empty_of_nonEmpty h).1

/-- What is read without regard to what is below it: a predicate of the form, or one that is
undefined. -/
def ReadAlone (p : Predicate) : Prop :=
  p.WellFormed ∨ ∃ element, p = undefined element

theorem readAlone_featureIdsOf (first : Node) (more : List Node) :
    (featureIdsOf first more).ReadAlone := by
  unfold featureIdsOf
  split
  · exact .inr ⟨_, rfl⟩
  · next hids =>
    refine .inl (.featureIds hids fun hempty => ?_)
    obtain ⟨n, -, hn⟩ := List.mem_filterMap.1 hempty
    exact ne_empty_of_featureId? hn rfl

theorem readAlone_getD {read : Option Predicate} (h : ∀ p, read = some p → p.WellFormed)
    (element : String) : (read.getD (undefined element)).ReadAlone := by
  cases hread : read with
  | none => exact .inr ⟨element, rfl⟩
  | some p => exact .inl (h p hread)

theorem readAlone_leafOf (n : Node) : (leafOf n).ReadAlone := by
  unfold leafOf
  dsimp only
  split
  · exact readAlone_getD (fun p => wellFormed_of_spatialOf?) _
  · exact readAlone_getD (fun p => wellFormed_of_comparisonOf?) _
  · split
    · exact readAlone_featureIdsOf n []
    · exact .inr ⟨_, rfl⟩

/-! ## Connectives -/

/-- No node of a predicate is undefined. -/
def IsDefined (p : Predicate) : Prop :=
  ∀ element, undefined element ∉ p.nodes

theorem firstUndefined?_eq_none_iff {p : Predicate} :
    p.firstUndefined? = none ↔ p.IsDefined := by
  unfold firstUndefined? IsDefined
  rw [List.findSome?_eq_none_iff]
  constructor
  · intro h element hmem
    cases h _ hmem
  · intro h n hn
    split
    · next element => exact absurd hn (h element)
    · rfl

theorem not_isDefined_undefined (element : String) : ¬(undefined element).IsDefined :=
  fun h => h element (mem_nodes_self _)

theorem ReadAlone.wellFormed {p : Predicate} (h : p.ReadAlone) (hdefined : p.IsDefined) :
    p.WellFormed := by
  rcases h with h | ⟨element, rfl⟩
  · exact h
  · exact absurd hdefined (not_isDefined_undefined element)

theorem IsDefined.operand {op : Connective} {operand : Predicate}
    (h : (unary op operand).IsDefined) : operand.IsDefined :=
  fun element hmem => h element (by rw [nodes]; exact List.mem_cons_of_mem _ hmem)

theorem IsDefined.left {op : Connective} {left right : Predicate}
    (h : (binary op left right).IsDefined) : left.IsDefined :=
  fun element hmem =>
    h element (by rw [nodes]; exact List.mem_cons_of_mem _ (List.mem_append_left _ hmem))

theorem IsDefined.right {op : Connective} {left right : Predicate}
    (h : (binary op left right).IsDefined) : right.IsDefined :=
  fun element hmem =>
    h element (by rw [nodes]; exact List.mem_cons_of_mem _ (List.mem_append_right _ hmem))

/-- Defined operands that are grouped to the right are well formed if each is. -/
theorem wellFormed_chain {op : Connective} (hop : op ≠ .not) {first : Predicate}
    {more : List Predicate}
    (hread : ∀ p ∈ first :: more, p.IsDefined → p.WellFormed)
    (h : (chain op first more).IsDefined) : (chain op first more).WellFormed := by
  induction more generalizing first with
  | nil => exact hread first List.mem_cons_self h
  | cons second more ih =>
      rw [chain] at h ⊢
      rw [List.forall_mem_cons] at hread
      exact .junction hop (hread.1 h.left) (ih hread.2 h.right)

theorem wellFormed_logicalOf {name : String} {operands : List Predicate}
    (hread : ∀ p ∈ operands, p.IsDefined → p.WellFormed)
    (h : (logicalOf name operands).IsDefined) : (logicalOf name operands).WellFormed := by
  unfold logicalOf at h ⊢
  split at h
  · next operand _ => exact .negation (hread operand List.mem_cons_self h.operand)
  · exact wellFormed_chain (by decide) hread h
  · exact wellFormed_chain (by decide) hread h
  · exact absurd h (not_isDefined_undefined _)

mutual

/-- An element gives a predicate of the form, unless a node of it is undefined. -/
theorem wellFormed_ofNode (n : Node) (h : (ofNode n).IsDefined) : (ofNode n).WellFormed := by
  cases n with
  | element name attributes content =>
      rw [ofNode] at h ⊢
      split at h
      · next hlogical =>
        -- Of a connective, the operands are defined because it is.
        rw [if_pos hlogical]
        exact wellFormed_logicalOf (wellFormed_ofNodes content) h
      · next hlogical =>
        rw [if_neg hlogical]
        exact (readAlone_leafOf _).wellFormed h
  | text value => exact absurd h (not_isDefined_undefined _)
  | comment value => exact absurd h (not_isDefined_undefined _)
  | instruction value => exact absurd h (not_isDefined_undefined _)

theorem wellFormed_ofNodes (ns : List Node) :
    ∀ p ∈ ofNodes ns, p.IsDefined → p.WellFormed := by
  cases ns with
  | nil => exact fun p hp => by cases hp
  | cons n ns =>
      rw [ofNodes]
      split
      · rw [List.forall_mem_cons]
        exact ⟨wellFormed_ofNode n, wellFormed_ofNodes ns⟩
      · exact wellFormed_ofNodes ns

end

/-! ## Documents -/

theorem validated_eq_ok_iff {p q : Predicate} : p.validated = .ok q ↔ p = q ∧ q.IsDefined := by
  rw [← firstUndefined?_eq_none_iff]
  unfold validated
  cases hfirst : p.firstUndefined? with
  | some element =>
      constructor
      · intro h
        cases h
      · rintro ⟨rfl, hnone⟩
        rw [hfirst] at hnone
        cases hnone
  | none =>
      constructor
      · intro h
        cases h
        exact ⟨rfl, hfirst⟩
      · rintro ⟨rfl, -⟩
        rfl

theorem wellFormed_of_ofFilter {filter : Node} {p : Predicate}
    (h : ofFilter filter >>= validated = .ok p) : p.WellFormed := by
  obtain ⟨q, hq, hvalid⟩ := exists_of_bind_eq_ok h
  obtain ⟨rfl, hdefined⟩ := validated_eq_ok_iff.1 hvalid
  unfold ofFilter at hq
  split at hq
  · cases hq
  · split at hq
    · cases hq
      exact (readAlone_featureIdsOf _ _).wellFormed hdefined
    · cases hq
      exact wellFormed_ofNode _ hdefined

/-- A document that is read is a filter element that is. -/
theorem exists_filter_of_ofDocument {text : String} {p : Predicate} (h : ofDocument text = .ok p) :
    ∃ root filter, Xml.document? (Xml.unprefixed text) = some root ∧
      root.nodes.find? (Node.named "Filter") = some filter ∧
      ofFilter filter >>= validated = .ok p := by
  unfold ofDocument at h
  split at h
  · split at h
    · cases h
    · next root hroot =>
      split at h
      · cases h
      · next filter hfilter => exact ⟨root, filter, hroot, hfilter, h⟩
  · cases h

/-- Every document that is read gives a predicate of the form. -/
theorem wellFormed_ofDocument {text : String} {p : Predicate} (h : ofDocument text = .ok p) :
    p.WellFormed := by
  obtain ⟨root, filter, -, -, hfilter⟩ := exists_filter_of_ofDocument h
  exact wellFormed_of_ofFilter hfilter

set_option maxRecDepth 4096 in
theorem wellFormed_ofDocument_and_beside_not : ∃ p,
    ofDocument ("<f:Filter><And><PropertyIsEqualTo><PropertyName> a </PropertyName>" ++
      "<Literal>1</Literal></PropertyIsEqualTo><Not><FeatureId fid='r.1'/></Not></And>" ++
      "</f:Filter>") = .ok p ∧
    p.nodes.map tag =
      ["AND", "PropertyIsEqualTo", "PropertyName", "Literal", "NOT", "FeatureId"] ∧
    p.WellFormed := by
  refine exists_ok_of_toOption_map ?_ fun p hp => wellFormed_ofDocument hp
  rw [show "<f:Filter><And><PropertyIsEqualTo><PropertyName> a </PropertyName>" =
      String.ofList _ from rfl,
    show "<Literal>1</Literal></PropertyIsEqualTo><Not><FeatureId fid='r.1'/></Not></And>" =
      String.ofList _ from rfl,
    show "</f:Filter>" = String.ofList _ from rfl]
  simp only [← String.ofList_append, ofDocument, Text.contains, Xml.unprefixed,
    String.toList_ofList, Xml.document?_ofList]
  decide +kernel

end Predicate

end FilterEncoding
