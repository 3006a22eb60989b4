import FilterEncoding.Proofs.Predicate.Comments
import FilterEncoding.Proofs.Predicate.Operands
import FilterEncoding.Proofs.Readers

/-!
# Elements that cannot be read

An element that cannot be read makes its document invalid.  It is not refused where it stands.  Its
predicate is an undefined node, which is moved along with the other operands of its connective, and
which is looked for when the predicate is complete.  The element that is found is the first one in
the document.

* `Predicate.operandAt?` — the elements that are read as predicates.
* `Predicate.Fails` — the elements that cannot be read, with all reasons.
* `Predicate.IsFirstFailure` — the first of them in the order of the document.
* `Predicate.reports_ofNode` — what is found in the predicate of an element.
* `Predicate.ofDocument_failures` — when a document is read, and why it is invalid otherwise.
-/

namespace FilterEncoding

open FilterEncoding.Xml (Node)

namespace Predicate

/-! ## Parts of operators -/

/-- What an element needs to be read as a comparison, and does not have. -/
def LacksComparisonPart (op : ComparisonOperator) (n : Node) : Prop :=
  propertyName? n = none ∨
    match op with
    | .between => (n.child? "LowerBoundary").bind bound? = none ∨
        (n.child? "UpperBoundary").bind bound? = none
    | .like => n.descendant? "Literal" = none ∨ n.attribute? "wildCard" = none ∨
        n.attribute? "singleChar" = none ∨
        n.attribute? "escape" = none ∧ n.attribute? "escapeChar" = none
    | .relation _ => n.descendant? "Literal" = none

/-- Elements with no bounding box or a malformed one. -/
def LacksBox (n : Node) : Prop :=
  match (n.child? "Box").or (n.child? "BoxType"), n.child? "Envelope" with
  | some element, _ => ∃ fault, Gml.box element = .error fault
  | none, some element => ∃ fault, Gml.envelope element = .error fault
  | none, none => True

/-- Elements with no geometry or a malformed one, or without a distance that the operator needs. -/
def LacksGeometry (op : SpatialOperator) (n : Node) : Prop :=
  match geometryNames.findSome? n.child? with
  | some element => (∃ fault, Gml.shape element = .error fault) ∨
      op.isDistance = true ∧ n.child? "Distance" = none
  | none => True

/-- What an element needs to be read as a spatial predicate, and does not have. -/
def LacksSpatialPart (op : SpatialOperator) (n : Node) : Prop :=
  propertyName? n = none ∨ if op = .bbox then LacksBox n else LacksGeometry op n

theorem likeOptions?_eq_none_iff {n : Node} :
    likeOptions? n = none ↔ n.attribute? "wildCard" = none ∨ n.attribute? "singleChar" = none ∨
      n.attribute? "escape" = none ∧ n.attribute? "escapeChar" = none := by
  rw [← Option.or_eq_none_iff]
  unfold likeOptions?
  cases n.attribute? "wildCard" <;> cases n.attribute? "singleChar" <;>
    cases (n.attribute? "escape").or (n.attribute? "escapeChar") <;> simp

theorem comparisonOf?_eq_none_iff {op : ComparisonOperator} {n : Node} :
    comparisonOf? op n = none ↔ LacksComparisonPart op n := by
  unfold comparisonOf? LacksComparisonPart
  cases propertyName? n with
  | none => simp
  | some name =>
      cases op with
      | relation r => cases n.descendant? "Literal" <;> simp
      | like =>
          rw [← likeOptions?_eq_none_iff]
          cases n.descendant? "Literal" <;> cases likeOptions? n <;> simp
      | between =>
          cases (n.child? "LowerBoundary").bind bound? <;>
            cases (n.child? "UpperBoundary").bind bound? <;> simp

theorem boxOf?_eq_none_iff {n : Node} : boxOf? n = none ↔ LacksBox n := by
  unfold boxOf? LacksBox
  match (n.child? "Box").or (n.child? "BoxType"), n.child? "Envelope" with
  | some element, _ => exact Option.map_eq_none_iff.trans toOption_eq_none_iff
  | none, some element => exact Option.map_eq_none_iff.trans toOption_eq_none_iff
  | none, none => exact iff_of_true rfl trivial

theorem geometryOf?_eq_none_iff {op : SpatialOperator} {n : Node} :
    geometryOf? op n = none ↔ LacksGeometry op n := by
  have hdistance : distanceOf? n = none ↔ n.child? "Distance" = none := Option.map_eq_none_iff
  unfold geometryOf? LacksGeometry
  cases geometryNames.findSome? n.child? with
  | none => simp
  | some element =>
      simp only [Option.bind_eq_bind, Option.bind_some]
      rw [← toOption_eq_none_iff, ← hdistance]
      cases (Gml.shape element).toOption with
      | none => simp
      | some read => cases op.isDistance <;> cases distanceOf? n <;> simp

theorem spatialOf?_eq_none_iff {op : SpatialOperator} {n : Node} :
    spatialOf? op n = none ↔ LacksSpatialPart op n := by
  unfold spatialOf? LacksSpatialPart
  cases propertyName? n with
  | none => simp
  | some name =>
      split
      · rw [← boxOf?_eq_none_iff]
        cases boxOf? n <;> simp
      · rw [← geometryOf?_eq_none_iff]
        cases geometryOf? op n <;> simp

/-! ## Elements that are read -/

/-- The child elements of a connective that are read as its operands. -/
def operandElements (n : Node) : List Node :=
  if n.named "Not" then n.elements.take 1
  else if (n.named "And" || n.named "Or") && 2 ≤ n.elements.length then n.elements
  else []

/-- The element that is read at a path.  A path lists the places of operands among the operands of
their connectives. -/
def operandAt? (n : Node) : List Nat → Option Node
  | [] => some n
  | place :: path => (operandElements n)[place]?.bind fun operand => operandAt? operand path

/-- The paths of elements in the order of the document.  An element stands in front of its operands,
and an operand with all that is below it in front of the next one. -/
def Earlier (path other : List Nat) : Prop :=
  List.Lex (· < ·) path other

/-- Elements that cannot be read.  An element that lists feature ids may be read along with elements
beside it. -/
inductive Fails (beside : List Node) (n : Node) : Prop
  | junction {op : Connective} (hop : op ≠ .not) (hname : n.name? = some op.elementName)
      (hfew : n.elements.length < 2)
  | negation (hname : n.name? = some "Not") (hnone : n.elements = [])
  | unsupported {name : String} (hname : n.name? = some name)
      (hunsupported : isSupportedName name = false)
  | spatial {name : String} {op : SpatialOperator} (hname : n.name? = some name)
      (hop : SpatialOperator.ofTag? name = some op) (hlacks : LacksSpatialPart op n)
  | comparison {name : String} {op : ComparisonOperator} (hname : n.name? = some name)
      (hop : ComparisonOperator.ofTag? name = some op) (hlacks : LacksComparisonPart op n)
  | featureIds {name : String} (hname : n.name? = some name) (hids : isFeatureIdName name = true)
      (hnone : ∀ e ∈ n :: beside, featureId? e = none)

/-- The elements at a path from the first element of a filter that cannot be read.  Only the first
element is read along with the elements beside it. -/
def IsFailure (first : Node) (beside : List Node) (path : List Nat) (e : Node) : Prop :=
  operandAt? first path = some e ∧ Fails (if path = [] then beside else []) e

/-- The first of the elements that cannot be read. -/
structure IsFirstFailure (first : Node) (beside : List Node) (path : List Nat) (e : Node) :
    Prop where
  failure : IsFailure first beside path e
  earliest : ∀ {other : List Nat} {m : Node}, IsFailure first beside other m →
    path = other ∨ Earlier path other

/-- What is reported about a filter with this first element: no failure, or the name of the first
element that fails. -/
def Reports (first : Node) (beside : List Node) : Option String → Prop
  | none => ∀ path e, ¬ IsFailure first beside path e
  | some name => ∃ path e, IsFirstFailure first beside path e ∧ e.name? = some name

/-! ## Names of operators -/

/-- The kinds of elements have no names in common. -/
theorem spatial_names {name : String} {op : SpatialOperator}
    (h : SpatialOperator.ofTag? name = some op) : isLogicalName name = false := by
  have hnames : ∀ name ∈ "Intersect" :: SpatialOperator.all.map SpatialOperator.tag,
      isLogicalName name = false := by decide
  refine hnames name ?_
  unfold SpatialOperator.ofTag? at h
  split at h
  · next hname => exact hname ▸ List.mem_cons_self
  · have htag := List.find?_some h
    exact List.mem_cons_of_mem _
      (List.mem_map.2 ⟨op, List.mem_of_find?_eq_some h, beq_iff_eq.1 htag⟩)

theorem comparison_names {name : String} {op : ComparisonOperator}
    (h : ComparisonOperator.ofTag? name = some op) :
    isLogicalName name = false ∧ SpatialOperator.ofTag? name = none := by
  have hnames : ∀ name ∈ ComparisonOperator.all.map ComparisonOperator.tag,
      isLogicalName name = false ∧ SpatialOperator.ofTag? name = none := by decide
  have htag := List.find?_some h
  exact hnames name (List.mem_map.2 ⟨op, List.mem_of_find?_eq_some h, beq_iff_eq.1 htag⟩)

theorem featureId_names {name : String} (h : isFeatureIdName name = true) :
    isLogicalName name = false ∧ SpatialOperator.ofTag? name = none ∧
      ComparisonOperator.ofTag? name = none := by
  have hnames : ∀ name ∈ featureIdNames, isLogicalName name = false ∧
      SpatialOperator.ofTag? name = none ∧ ComparisonOperator.ofTag? name = none := by decide
  exact hnames name (List.contains_iff_mem.1 h)

/-! ## Undefined nodes -/

theorem firstUndefined?_undefined (element : String) :
    (undefined element).firstUndefined? = some element :=
  rfl

theorem firstUndefined?_unary (op : Connective) (operand : Predicate) :
    (unary op operand).firstUndefined? = operand.firstUndefined? :=
  rfl

theorem firstUndefined?_binary (op : Connective) (left right : Predicate) :
    (binary op left right).firstUndefined? =
      left.firstUndefined?.or right.firstUndefined? :=
  List.findSome?_append

/-- A search through operands that are grouped to the right is one along the operands. -/
theorem firstUndefined?_chain (op : Connective) (first : Predicate) (more : List Predicate) :
    (chain op first more).firstUndefined? = (first :: more).findSome? firstUndefined? := by
  induction more generalizing first with
  | nil => simp [chain]
  | cons second more ih =>
      rw [chain, firstUndefined?_binary, ih, List.findSome?_cons (a := first)]
      cases first.firstUndefined? <;> rfl

theorem WellFormed.firstUndefined?_eq_none {p : Predicate} (h : p.WellFormed) :
    p.firstUndefined? = none := by
  induction h with
  | negation _ ih => exact ih
  | junction _ _ _ ihl ihr => rw [firstUndefined?_binary, ihl, ihr, Option.or_none]
  | _ => rfl

/-! ## Elements and their predicates -/

theorem featureIdsOf_of_forall {first : Node} {more : List Node}
    (h : ∀ e ∈ first :: more, featureId? e = none) :
    featureIdsOf first more = undefined (first.name?.getD "") := by
  rw [featureIdsOf, List.filterMap_eq_nil_iff.2 h]

theorem firstUndefined?_featureIdsOf_of_not_forall {first : Node} {more : List Node}
    (h : ¬ ∀ e ∈ first :: more, featureId? e = none) :
    (featureIdsOf first more).firstUndefined? = none := by
  rw [← List.filterMap_eq_nil_iff] at h
  unfold featureIdsOf
  split
  · next hnil => exact absurd hnil h
  · rfl

theorem ofNode_of_not_isLogicalName {n : Node} {name : String} (hname : n.name? = some name)
    (hlogical : isLogicalName name = false) : ofNode n = leafOf n := by
  obtain ⟨attributes, content, rfl⟩ := exists_of_name? hname
  rw [ofNode, if_neg (Bool.eq_false_iff.1 hlogical)]

/-- An element that cannot be read gives an undefined node. -/
theorem ofNode_of_fails {n : Node} (h : Fails [] n) :
    ∃ name, n.name? = some name ∧ ofNode n = undefined name := by
  cases h with
  | @junction op hop hname hfew =>
      refine ⟨_, hname, ?_⟩
      rw [ofNode_of_isLogicalName hname (isLogicalName_iff.2 ⟨op, rfl⟩)]
      match n.elements, hfew with
      | [], _ => cases op <;> rfl
      | [_], _ =>
          cases op with
          | not => exact absurd rfl hop
          | _ => rfl
  | negation hname hnone =>
      refine ⟨_, hname, ?_⟩
      rw [ofNode_of_isLogicalName hname (by decide), hnone]
      rfl
  | @unsupported name hname hunsupported =>
      refine ⟨name, hname, ?_⟩
      simp only [isSupportedName, Bool.or_eq_false_iff, Option.isSome_eq_false_iff,
        Option.isNone_iff_eq_none] at hunsupported
      obtain ⟨⟨⟨hlogical, hids⟩, hspatial⟩, hcomparison⟩ := hunsupported
      rw [ofNode_of_not_isLogicalName hname hlogical]
      simp [leafOf, hname, hspatial, hcomparison, hids]
  | @spatial name op hname hop hlacks =>
      refine ⟨name, hname, ?_⟩
      rw [ofNode_of_not_isLogicalName hname (spatial_names hop)]
      simp [leafOf, hname, hop, spatialOf?_eq_none_iff.2 hlacks]
  | @comparison name op hname hop hlacks =>
      refine ⟨name, hname, ?_⟩
      obtain ⟨hlogical, hspatial⟩ := comparison_names hop
      rw [ofNode_of_not_isLogicalName hname hlogical]
      simp [leafOf, hname, hspatial, hop, comparisonOf?_eq_none_iff.2 hlacks]
  | @featureIds name hname hids hnone =>
      refine ⟨name, hname, ?_⟩
      obtain ⟨hlogical, hspatial, hcomparison⟩ := featureId_names hids
      rw [ofNode_of_not_isLogicalName hname hlogical]
      simp [leafOf, hname, hspatial, hcomparison, hids, featureIdsOf_of_forall hnone]

/-! ## Operands -/

theorem operandElements_negation {n : Node} (hname : n.name? = some "Not") :
    operandElements n = n.elements.take 1 := by
  simp [operandElements, Node.named, hname]

theorem operandElements_junction {op : Connective} (hop : op ≠ .not) {n : Node}
    (hname : n.name? = some op.elementName) :
    operandElements n = if 2 ≤ n.elements.length then n.elements else [] := by
  cases op with
  | not => exact absurd rfl hop
  | _ => simp [operandElements, Node.named, hname, Connective.elementName]

theorem operandElements_of_not_isLogicalName {n : Node} {name : String}
    (hname : n.name? = some name) (hlogical : isLogicalName name = false) :
    operandElements n = [] := by
  simp only [isLogicalName, Bool.or_eq_false_iff, beq_eq_false_iff_ne] at hlogical
  simp [operandElements, Node.named, hname, hlogical]

theorem mem_elements_of_mem_operandElements {n e : Node} (h : e ∈ operandElements n) :
    e ∈ n.elements := by
  unfold operandElements at h
  split at h
  · exact List.mem_of_mem_take h
  · split at h
    · exact h
    · cases h

/-- An element that is no connective and can be read has no undefined node. -/
theorem firstUndefined?_leafOf_of_not_fails {n : Node} {name : String}
    (hname : n.name? = some name) (hlogical : isLogicalName name = false) (h : ¬ Fails [] n) :
    (leafOf n).firstUndefined? = none := by
  unfold leafOf
  rw [hname, Option.getD_some]
  dsimp only
  split
  · next op hop =>
    cases hread : spatialOf? op n with
    | none => exact absurd (.spatial hname hop (spatialOf?_eq_none_iff.1 hread)) h
    | some p => exact (wellFormed_of_spatialOf? hread).firstUndefined?_eq_none
  · next op _ hop =>
    cases hread : comparisonOf? op n with
    | none => exact absurd (.comparison hname hop (comparisonOf?_eq_none_iff.1 hread)) h
    | some p => exact (wellFormed_of_comparisonOf? hread).firstUndefined?_eq_none
  · next hspatial hcomparison =>
    split
    · next hids =>
      exact firstUndefined?_featureIdsOf_of_not_forall fun hnone => h (.featureIds hname hids hnone)
    · next hids =>
      refine absurd (.unsupported hname ?_) h
      simp [isSupportedName, hlogical, hids, hspatial, hcomparison]

/-- An element that can be read has the undefined nodes of its operands, and no others. -/
theorem firstUndefined?_ofNode_of_not_fails {n : Node} {name : String}
    (hname : n.name? = some name) (h : ¬ Fails [] n) : (ofNode n).firstUndefined? =
      (operandElements n).findSome? fun e => (ofNode e).firstUndefined? := by
  cases hlogical : isLogicalName name with
  | false =>
      rw [ofNode_of_not_isLogicalName hname hlogical,
        firstUndefined?_leafOf_of_not_fails hname hlogical h,
        operandElements_of_not_isLogicalName hname hlogical]
      rfl
  | true =>
      obtain ⟨op, rfl⟩ := isLogicalName_iff.1 hlogical
      by_cases hop : op = .not
      · subst hop
        rw [ofNode_of_isLogicalName hname hlogical, operandElements_negation hname]
        match helements : n.elements with
        | [] => exact absurd (.negation hname helements) h
        | operand :: _ =>
            refine (firstUndefined?_unary .not (ofNode operand)).trans ?_
            simp
      · have hmany : 2 ≤ n.elements.length :=
          Nat.le_of_not_lt fun hfew => h (.junction hop hname hfew)
        obtain ⟨first, more, hoperands, hchain⟩ := ofNode_eq_chain hop hname hmany
        rw [hchain, firstUndefined?_chain, ← hoperands, List.findSome?_map,
          operandElements_junction hop hname, if_pos hmany]
        rfl

/-! ## Reports -/

theorem Earlier.asymm {path other : List Nat} (h : Earlier path other) : ¬ Earlier other path :=
  fun h' => List.lex_irrefl Nat.lt_irrefl path (List.lex_trans Nat.lt_trans h h')

theorem IsFirstFailure.unique {first : Node} {beside : List Node} {path path' : List Nat}
    {e e' : Node} (h : IsFirstFailure first beside path e)
    (h' : IsFirstFailure first beside path' e') : e = e' := by
  have hpath : path = path' := by
    rcases h.earliest h'.failure with heq | hearlier
    · exact heq
    · rcases h'.earliest h.failure with heq | hearlier'
      · exact heq.symm
      · exact absurd hearlier' hearlier.asymm
  subst hpath
  exact Option.some.inj (h.failure.1.symm.trans h'.failure.1)

theorem isFailure_nil_iff {first e : Node} {beside : List Node} :
    IsFailure first beside [] e ↔ first = e ∧ Fails beside e := by
  simp [IsFailure, operandAt?]

theorem isFailure_cons_iff {first e : Node} {beside : List Node} {place : Nat} {path : List Nat} :
    IsFailure first beside (place :: path) e ↔
      ∃ operand, (operandElements first)[place]? = some operand ∧ IsFailure operand [] path e := by
  simp only [IsFailure, operandAt?, Option.bind_eq_some_iff, reduceCtorEq, if_false, ite_self]
  constructor
  · rintro ⟨⟨operand, hoperand, hpath⟩, hfails⟩
    exact ⟨operand, hoperand, hpath, hfails⟩
  · rintro ⟨operand, hoperand, hpath, hfails⟩
    exact ⟨⟨operand, hoperand, hpath⟩, hfails⟩

/-- If an element fails, it is the first one that does. -/
theorem reports_of_fails {n : Node} {beside : List Node} {name : String}
    (hname : n.name? = some name) (h : Fails beside n) : Reports n beside (some name) := by
  refine ⟨[], n, ⟨isFailure_nil_iff.2 ⟨rfl, h⟩, fun {other m} _ => ?_⟩, hname⟩
  cases other with
  | nil => exact .inl rfl
  | cons place path => exact .inr .nil

/-- The reports about its operands make the report about an element that does not fail. -/
theorem reports_of_operands {n : Node} {beside : List Node} {report : Node → Option String}
    (h : ¬ Fails beside n) (hoperands : ∀ e ∈ operandElements n, Reports e [] (report e)) :
    Reports n beside ((operandElements n).findSome? report) := by
  have hself {e : Node} : ¬ IsFailure n beside [] e := by
    rw [isFailure_nil_iff]
    rintro ⟨rfl, hfails⟩
    exact h hfails
  have hsilent {operand e : Node} {path : List Nat} (hmem : operand ∈ operandElements n)
      (hnone : report operand = none) : ¬ IsFailure operand [] path e := by
    have hreport := hoperands operand hmem
    rw [hnone] at hreport
    exact hreport path e
  cases hfind : (operandElements n).findSome? report with
  | none =>
      intro path e hfailure
      cases path with
      | nil => exact hself hfailure
      | cons place path =>
          obtain ⟨operand, hget, hfailure⟩ := isFailure_cons_iff.1 hfailure
          have hmem := List.mem_of_getElem? hget
          exact hsilent hmem (List.findSome?_eq_none_iff.1 hfind operand hmem) hfailure
  | some name =>
      obtain ⟨before, operand, after, hsplit, hreported, hbefore⟩ :=
        List.findSome?_eq_some_iff.1 hfind
      have hget : (operandElements n)[before.length]? = some operand := by simp [hsplit]
      have hreport := hoperands operand (List.mem_of_getElem? hget)
      rw [hreported] at hreport
      obtain ⟨path, e, hfirst, hname⟩ := hreport
      refine ⟨before.length :: path, e,
        ⟨isFailure_cons_iff.2 ⟨operand, hget, hfirst.failure⟩, fun {other m} hother => ?_⟩, hname⟩
      cases other with
      | nil => exact absurd hother hself
      | cons place other =>
          obtain ⟨operand', hget', hother⟩ := isFailure_cons_iff.1 hother
          rcases Nat.lt_trichotomy place before.length with hlt | rfl | hgt
          · -- Nothing fails in an operand in front of the one with the report.
            have hmem := List.mem_of_getElem? hget'
            rw [hsplit, List.getElem?_append_left hlt] at hget'
            exact absurd hother (hsilent hmem (hbefore _ (List.mem_of_getElem? hget')))
          · obtain rfl := Option.some.inj (hget.symm.trans hget')
            exact (hfirst.earliest hother).imp (congrArg _) .cons
          · exact .inr (.rel hgt)

theorem exists_name?_of_isElement {n : Node} (h : n.isElement = true) :
    ∃ name, n.name? = some name := by
  cases n with
  | element name attributes content => exact ⟨name, rfl⟩
  | _ => cases h

theorem sizeOf_lt_of_mem_elements {n e : Node} (h : e ∈ n.elements) : sizeOf e < sizeOf n := by
  have hcontent := List.sizeOf_lt_of_mem (List.mem_of_mem_filter h)
  cases n with
  | element name attributes content =>
      simp only [Node.content, Node.element.sizeOf_spec] at hcontent ⊢
      omega
  | _ => simp [Node.elements, Node.content] at h

/-- The first undefined node in the predicate of an element is that of the first element that
fails. -/
theorem reports_ofNode {n : Node} {beside : List Node} (hn : n.isElement = true)
    (hbeside : Fails beside n ↔ Fails [] n) : Reports n beside (ofNode n).firstUndefined? := by
  by_cases hfails : Fails beside n
  · obtain ⟨name, hname, hundefined⟩ := ofNode_of_fails (hbeside.1 hfails)
    rw [hundefined, firstUndefined?_undefined]
    exact reports_of_fails hname hfails
  · obtain ⟨name, hname⟩ := exists_name?_of_isElement hn
    rw [firstUndefined?_ofNode_of_not_fails hname (mt hbeside.2 hfails)]
    refine reports_of_operands hfails fun e he => ?_
    have hmem := mem_elements_of_mem_operandElements he
    exact reports_ofNode (List.of_mem_filter hmem) Iff.rfl
termination_by sizeOf n
decreasing_by exact sizeOf_lt_of_mem_elements hmem

/-! ## First elements of filters -/

theorem fails_featureId_iff {n : Node} {beside : List Node} {name : String}
    (hname : n.name? = some name) (hids : isFeatureIdName name = true) :
    Fails beside n ↔ ∀ e ∈ n :: beside, featureId? e = none := by
  obtain ⟨hlogical, hspatial, hcomparison⟩ := featureId_names hids
  refine ⟨fun h => ?_, .featureIds hname hids⟩
  cases h with
  | featureIds _ _ hnone => exact hnone
  | @junction op hop hname' _ =>
      cases hname.symm.trans hname'
      rw [isLogicalName_iff.2 ⟨op, rfl⟩] at hlogical
      cases hlogical
  | negation hname' _ =>
      cases hname.symm.trans hname'
      cases hlogical
  | unsupported hname' hunsupported =>
      cases hname.symm.trans hname'
      simp [isSupportedName, hids] at hunsupported
  | spatial hname' hop _ =>
      cases hname.symm.trans hname'
      cases hspatial.symm.trans hop
  | comparison hname' hop _ =>
      cases hname.symm.trans hname'
      cases hcomparison.symm.trans hop

/-- The elements beside an element matter to feature ids only. -/
theorem Fails.of_beside {n : Node} {beside other : List Node} (hids : isFeatureId n = false)
    (h : Fails beside n) : Fails other n := by
  cases h with
  | junction hop hname hfew => exact .junction hop hname hfew
  | negation hname hnone => exact .negation hname hnone
  | unsupported hname hunsupported => exact .unsupported hname hunsupported
  | spatial hname hop hlacks => exact .spatial hname hop hlacks
  | comparison hname hop hlacks => exact .comparison hname hop hlacks
  | featureIds hname hname' _ =>
      rw [isFeatureId, hname, Option.any_some, hname'] at hids
      cases hids

theorem reports_first {first : Node} {beside : List Node} (hfirst : isSupported first = true) :
    Reports first beside
      (if isFeatureId first then featureIdsOf first beside else ofNode first).firstUndefined? := by
  obtain ⟨name, hname, -⟩ := (Option.any_eq_true _ _).1 hfirst
  split
  · next hids =>
    rw [isFeatureId, hname, Option.any_some] at hids
    have hfails : Fails beside first ↔ ∀ e ∈ first :: beside, featureId? e = none :=
      fails_featureId_iff hname hids
    by_cases hnone : ∀ e ∈ first :: beside, featureId? e = none
    · rw [featureIdsOf_of_forall hnone, hname]
      exact reports_of_fails hname (hfails.2 hnone)
    · have hoperands := operandElements_of_not_isLogicalName hname (featureId_names hids).1
      have hreport : Reports first beside ((operandElements first).findSome? fun _ => none) :=
        reports_of_operands (mt hfails.1 hnone) fun e he => by simp [hoperands] at he
      rwa [hoperands, List.findSome?_nil,
        ← firstUndefined?_featureIdsOf_of_not_forall hnone] at hreport
  · next hids =>
    rw [Bool.not_eq_true] at hids
    obtain ⟨attributes, content, rfl⟩ := exists_of_name? hname
    exact reports_ofNode rfl ⟨.of_beside hids, .of_beside hids⟩

theorem ofFilter_of_supported {filter first : Node} {before more : List Node}
    (helements : filter.elements = before ++ first :: more)
    (hbefore : ∀ n ∈ before, isSupported n = false) (hfirst : isSupported first = true) :
    ofFilter filter = .ok (if isFeatureId first then
      featureIdsOf first (more.takeWhile isFeatureId) else ofNode first) := by
  have hdrop : (filter.elements.dropWhile fun n => !isSupported n) = first :: more := by
    rw [helements, List.dropWhile_append_of_pos fun n hn => by simp [hbefore n hn],
      List.dropWhile_cons_of_neg (by simp [hfirst])]
  rw [ofFilter, hdrop]
  dsimp only
  split <;> rfl

/-! ## Documents -/

theorem validated_failures {p : Predicate} {first : Node} {beside : List Node}
    (h : Reports first beside p.firstUndefined?) :
    ((∃ q, p.validated = .ok q) ↔ ∀ path e, ¬ IsFailure first beside path e) ∧
      ∀ error, p.validated = .error error ↔ ∃ path e name,
        IsFirstFailure first beside path e ∧ e.name? = some name ∧ error = .invalid name := by
  unfold validated
  cases hfound : p.firstUndefined? with
  | none =>
      rw [hfound] at h
      refine ⟨iff_of_true ⟨p, rfl⟩ h, fun error => iff_of_false (by simp) ?_⟩
      rintro ⟨path, e, name, hfirst, -⟩
      exact h path e hfirst.failure
  | some name =>
      rw [hfound] at h
      obtain ⟨path, e, hfirst, hname⟩ := h
      refine ⟨iff_of_false (by simp) fun hall => hall path e hfirst.failure, fun error => ?_⟩
      constructor
      · rintro heq
        cases heq
        exact ⟨path, e, name, hfirst, hname, rfl⟩
      · rintro ⟨path', e', name', hfirst', hname', rfl⟩
        rw [hfirst'.unique hfirst, hname] at hname'
        cases hname'
        rfl

/-- A document whose filter has a supported element is read exactly if nothing fails that is read
from that element on.  Otherwise the document is invalid for the first element that fails. -/
theorem ofDocument_failures {text : String} {root filter first : Node} {before more : List Node}
    (hroot : Xml.document? (Xml.unprefixed text) = some root)
    (hfilter : root.nodes.find? (Node.named "Filter") = some filter)
    (helements : filter.elements = before ++ first :: more)
    (hbefore : ∀ n ∈ before, isSupported n = false) (hfirst : isSupported first = true) :
    ((∃ p, ofDocument text = .ok p) ↔
        ∀ path e, ¬ IsFailure first (more.takeWhile isFeatureId) path e) ∧
      ∀ error, ofDocument text = .error error ↔ ∃ path e name,
        IsFirstFailure first (more.takeWhile isFeatureId) path e ∧ e.name? = some name ∧
          error = .invalid name := by
  rw [ofDocument_of_filter hroot hfilter, ofFilter_of_supported helements hbefore hfirst]
  exact validated_failures (reports_first hfirst)

set_option maxRecDepth 4096 in
/-- A disjunction of one operand, which is not read, in front of an operand that fails as well. -/
theorem ofDocument_failures_nested : ∃ first path e,
    first.name? = some "And" ∧ IsFirstFailure first [] path e ∧ e.name? = some "Or" ∧
      ofDocument ("<Filter><x/><And><Not><FeatureId fid='a'/></Not><Or><FeatureId/></Or>" ++
        "<FeatureId/></And></Filter>") = .error (.invalid "Or") := by
  rw [show "<Filter><x/><And><Not><FeatureId fid='a'/></Not><Or><FeatureId/></Or>" =
      String.ofList _ from rfl,
    show "<FeatureId/></And></Filter>" = String.ofList _ from rfl, ← String.ofList_append]
  generalize htext : String.ofList _ = text
  have hread : ((Xml.document? (Xml.unprefixed text)).bind fun root =>
      root.nodes.find? (Node.named "Filter")).map (fun filter => filter.elements.map Node.name?) =
        some [some "x", some "And"] := by
    subst htext
    simp only [Xml.unprefixed, String.toList_ofList, Xml.document?_ofList]
    decide +kernel
  have hinvalid : ofDocument text = .error (.invalid "Or") := by
    have herror : (ofDocument text).map (fun _ => ()) = .error (.invalid "Or") := by
      subst htext
      simp only [ofDocument, Text.contains, Xml.unprefixed, String.toList_ofList,
        Xml.document?_ofList]
      decide +kernel
    exact eq_error_of_map_eq_error herror
  obtain ⟨filter, hfilter, hnames⟩ := Option.map_eq_some_iff.1 hread
  obtain ⟨root, hroot, hfilter⟩ := Option.bind_eq_some_iff.1 hfilter
  obtain ⟨x, others, helements, hx, hnames⟩ := List.map_eq_cons_iff.1 hnames
  obtain ⟨first, more, rfl, hand, hmore⟩ := List.map_eq_cons_iff.1 hnames
  obtain rfl := List.map_eq_nil_iff.1 hmore
  have hbefore : ∀ n ∈ [x], isSupported n = false := by
    rw [List.forall_mem_singleton, isSupported, hx]
    decide
  have hfirst : isSupported first = true := by
    rw [isSupported, hand]
    decide
  obtain ⟨path, e, name, hfailure, hname, heq⟩ :=
    ((ofDocument_failures hroot hfilter helements hbefore hfirst).2 _).1 hinvalid
  cases heq
  exact ⟨first, path, e, hand, hfailure, hname, hinvalid⟩

end Predicate

end FilterEncoding
