import FilterEncoding.Predicate.Element
import FilterEncoding.Proofs.Plan.TopBox
import Mathlib.Algebra.GroupWithZero.Nat

/-!
# Operands of conjunctions and disjunctions

An element may join any number of operands.  Its predicate groups them to the right, with two
operands at each node, and loses and reorders none of them.

* `Predicate.ofNodes_eq_map` — the operands are the predicates of the child elements.
* `Predicate.count_chain`, `Predicate.holds_chain_and`, `Predicate.holds_chain_or` — the nodes of
  operands that are grouped to the right, and what they say together.
* `Predicate.ofNode_junction` — the predicate of an element with two operands or more.
-/

namespace FilterEncoding

open FilterEncoding.Xml (Node)

/-- The name of the elements that stand for a connective. -/
def Connective.elementName : Connective → String
  | and => "And"
  | or => "Or"
  | not => "Not"

namespace Predicate

/-- The first operands that are met and then the last node, if the second operand is followed `n`
times, each time from a node of the connective. -/
def operandsAlong? (op : Connective) : Nat → Predicate → Option (List Predicate)
  | 0, p => some [p]
  | n + 1, binary o left right =>
      if o = op then (operandsAlong? op n right).map (left :: ·) else none
  | _ + 1, _ => none

/-! ## Operands that are grouped to the right -/

section Chain

variable (op : Connective) (first : Predicate) (more : List Predicate)

theorem operandsAlong?_chain :
    operandsAlong? op more.length (chain op first more) = some (first :: more) := by
  induction more generalizing first with
  | nil => rfl
  | cons second more ih =>
      rw [chain, List.length_cons, operandsAlong?, if_pos rfl, ih, Option.map_some]

/-- Every operand but the last adds a node of the connective. -/
theorem count_chain (name : String) :
    (chain op first more).count name = ((first :: more).map (count name)).sum +
      if Text.same op.keyword name then more.length else 0 := by
  induction more generalizing first with
  | nil => simp [chain]
  | cons second more ih =>
      have hnode : (chain op first (second :: more)).count name = first.count name +
          (chain op second more).count name + if Text.same op.keyword name then 1 else 0 := by
        simp [chain, count, nodes, tag, List.countP_cons]
      have hsum : ((first :: second :: more).map (count name)).sum =
          first.count name + ((second :: more).map (count name)).sum := List.sum_cons
      rw [hnode, ih, hsum, List.length_cons]
      split <;> omega

variable (truth : Predicate → Bool)

theorem holds_chain_and :
    (chain .and first more).holds truth = (first :: more).all (holds truth) := by
  induction more generalizing first with
  | nil => exact (Bool.and_true _).symm
  | cons second more ih =>
      rw [chain, holds, ih]
      rfl

theorem holds_chain_or :
    (chain .or first more).holds truth = (first :: more).any (holds truth) := by
  induction more generalizing first with
  | nil => exact (Bool.or_false _).symm
  | cons second more ih =>
      rw [chain, holds, ih]
      rfl

end Chain

/-! ## Elements -/

theorem ofNodes_eq_map (ns : List Node) : ofNodes ns = (ns.filter Node.isElement).map ofNode := by
  induction ns with
  | nil => rfl
  | cons n ns ih =>
      rw [ofNodes, ih, List.filter_cons]
      split <;> rfl

theorem isLogicalName_iff {name : String} :
    isLogicalName name = true ↔ ∃ op : Connective, name = op.elementName := by
  simp only [isLogicalName, Bool.or_eq_true, beq_iff_eq]
  constructor
  · rintro ((rfl | rfl) | rfl)
    · exact ⟨.and, rfl⟩
    · exact ⟨.or, rfl⟩
    · exact ⟨.not, rfl⟩
  · rintro ⟨op, rfl⟩
    cases op <;> simp [Connective.elementName]

theorem exists_of_name? {n : Node} {name : String} (h : n.name? = some name) :
    ∃ attributes content, n = .element name attributes content := by
  cases n with
  | element _ attributes content =>
      cases h
      exact ⟨attributes, content, rfl⟩
  | _ => cases h

/-- The predicate of a connective is made from the predicates of its child elements. -/
theorem ofNode_of_isLogicalName {n : Node} {name : String} (hname : n.name? = some name)
    (hlogical : isLogicalName name = true) :
    ofNode n = logicalOf name (n.elements.map ofNode) := by
  obtain ⟨attributes, content, rfl⟩ := exists_of_name? hname
  rw [ofNode, if_pos hlogical, ofNodes_eq_map]
  rfl

/-- A conjunction or disjunction with two child elements or more is the chain of their
predicates. -/
theorem ofNode_eq_chain {op : Connective} (hop : op ≠ .not) {n : Node}
    (hname : n.name? = some op.elementName) (hmany : 2 ≤ n.elements.length) :
    ∃ first more, n.elements.map ofNode = first :: more ∧ ofNode n = chain op first more := by
  match helements : n.elements, hmany with
  | first :: second :: more, _ =>
      refine ⟨ofNode first, (second :: more).map ofNode, rfl, ?_⟩
      cases op with
      | and =>
          rw [ofNode_of_isLogicalName hname (by decide), helements]
          rfl
      | or =>
          rw [ofNode_of_isLogicalName hname (by decide), helements]
          rfl
      | not => exact absurd rfl hop

/-- The predicate of a conjunction or disjunction has its operands in document order along the
second operands, one node of the connective for each but the last, and says that all of them are
true, or that one is. -/
theorem ofNode_junction {op : Connective} (hop : op ≠ .not) {n : Node}
    (hname : n.name? = some op.elementName) (hmany : 2 ≤ n.elements.length) :
    (ofNode n).operandsAlong? op (n.elements.length - 1) = some (n.elements.map ofNode) ∧
      (∀ name, (ofNode n).count name = (n.elements.map fun e => (ofNode e).count name).sum +
        if Text.same op.keyword name then n.elements.length - 1 else 0) ∧
      ∀ truth, (ofNode n).holds truth = true ↔
        match op with
        | .and => ∀ e ∈ n.elements, (ofNode e).holds truth = true
        | _ => ∃ e ∈ n.elements, (ofNode e).holds truth = true := by
  obtain ⟨first, more, hoperands, hchain⟩ := ofNode_eq_chain hop hname hmany
  have hlength : n.elements.length - 1 = more.length := by
    rw [← List.length_map ofNode, hoperands, List.length_cons, Nat.add_sub_cancel]
  refine ⟨?_, fun name => ?_, fun truth => ?_⟩
  · rw [hchain, hlength, hoperands, operandsAlong?_chain]
  · have hcounts : n.elements.map (fun e => (ofNode e).count name) =
        (first :: more).map (count name) := by
      rw [← hoperands, List.map_map]
      rfl
    rw [hchain, hlength, hcounts, count_chain]
  · rw [hchain]
    cases op with
    | and =>
        rw [holds_chain_and, ← hoperands, List.all_map, List.all_eq_true]
        rfl
    | or =>
        rw [holds_chain_or, ← hoperands, List.any_map, List.any_eq_true]
        rfl
    | not => exact absurd rfl hop

/-- A disjunction of three operands, of which the second is a disjunction itself. -/
def nestedDisjunction : Node :=
  .element "Or" []
    [.element "FeatureId" [⟨"fid", "a"⟩] [],
      .element "Or" [] [.element "FeatureId" [⟨"fid", "b"⟩] [], .element "FeatureId" [] []],
      .comment "or", .element "FeatureId" [⟨"fid", "c"⟩] []]

theorem ofNode_junction_nested :
    2 ≤ nestedDisjunction.elements.length ∧
      (ofNode nestedDisjunction).operandsAlong? .or 2 =
        some (nestedDisjunction.elements.map ofNode) ∧
      (ofNode nestedDisjunction).count "or" = 3 ∧
      ∀ truth, (ofNode nestedDisjunction).holds truth = true ↔
        ∃ e ∈ nestedDisjunction.elements, (ofNode e).holds truth = true := by
  have hmany : 2 ≤ nestedDisjunction.elements.length := by decide
  obtain ⟨halong, hcount, hholds⟩ :=
    @ofNode_junction .or (by decide) nestedDisjunction rfl hmany
  exact ⟨hmany, halong, (hcount "or").trans (by decide +kernel), hholds⟩

end Predicate

end FilterEncoding
