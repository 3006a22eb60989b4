import FilterEncoding.Xml.Node
import Mathlib.Data.List.Basic

/-!
# Nested elements

The nodes below an element are those in the outermost elements with certain names and those around
these.  What does not occur around them occurs in them only, one behind the other
(`Node.filterMap_descendants`).

* `Node.outermost` — the elements with certain names that are in no other one of them.
* `Node.around` — the nodes that are in none of these elements.
-/

namespace FilterEncoding.Xml.Node

variable (names : List String)

mutual

/-- The outermost elements of a tree with one of the names, in document order. -/
def outermost : Node → List Node
  | element name attributes content =>
      if names.contains name then [element name attributes content] else outermostOf content
  | _ => []

/-- The outermost elements of several trees. -/
def outermostOf : List Node → List Node
  | [] => []
  | n :: ns => outermost n ++ outermostOf ns

end

mutual

/-- The nodes of a tree that are in no element with one of the names. -/
def around : Node → List Node
  | element name attributes content =>
      if names.contains name then [] else element name attributes content :: aroundOf content
  | n => [n]

/-- The nodes of several trees that are in no element with one of the names. -/
def aroundOf : List Node → List Node
  | [] => []
  | n :: ns => around n ++ aroundOf ns

end

/-- The outermost elements below a node. -/
def outermostBelow (n : Node) : List Node :=
  outermostOf names n.content

/-- The nodes below a node that are in none of these elements. -/
def aroundBelow (n : Node) : List Node :=
  aroundOf names n.content

section FilterMap

variable {names} {α : Type} {f : Node → Option α}

mutual

/-- What is not found around the outermost elements is found in them. -/
theorem filterMap_nodes (n : Node) (h : ∀ d ∈ n.around names, f d = none) :
    n.nodes.filterMap f = (n.outermost names).flatMap fun m => m.nodes.filterMap f := by
  cases n with
  | element name attributes content =>
      rw [outermost]
      rw [around] at h
      split at h
      -- an element with one of the names is outermost itself, whatever is in it
      · next hname => rw [if_pos hname, List.flatMap_singleton]
      · next hname =>
        rw [List.forall_mem_cons] at h
        rw [if_neg hname, nodes, List.filterMap_cons_none h.1, filterMap_nodesOf content h.2]
  | _ => exact List.filterMap_cons_none (h _ (List.mem_singleton_self _))

theorem filterMap_nodesOf (ns : List Node) (h : ∀ d ∈ aroundOf names ns, f d = none) :
    (nodesOf ns).filterMap f = (outermostOf names ns).flatMap fun m => m.nodes.filterMap f := by
  cases ns with
  | nil => rfl
  | cons n ns =>
      rw [aroundOf, List.forall_mem_append] at h
      rw [nodesOf, outermostOf, List.filterMap_append, List.flatMap_append, filterMap_nodes n h.1,
        filterMap_nodesOf ns h.2]

end

theorem filterMap_descendants {n : Node} (h : ∀ d ∈ n.aroundBelow names, f d = none) :
    n.descendants.filterMap f =
      (n.outermostBelow names).flatMap fun m => m.nodes.filterMap f :=
  filterMap_nodesOf n.content h

/-- What a search does not find around the outermost elements it finds in the first one that
has it. -/
theorem findSome?_descendants {n : Node} (h : ∀ d ∈ n.aroundBelow names, f d = none) :
    n.descendants.findSome? f =
      (n.outermostBelow names).findSome? fun m => m.nodes.findSome? f := by
  rw [← List.head?_filterMap, filterMap_descendants h, List.head?_flatMap]
  simp only [List.head?_filterMap]

end FilterMap

/-! ## Names -/

theorem descendant?_eq_head? (name : String) (n : Node) :
    n.descendant? name = (n.descendantsNamed [name]).head? := by
  simp [descendant?, descendantsNamed, List.head?_filter]

theorem descendantsNamed_eq_nil_iff {names : List String} {n : Node} :
    n.descendantsNamed names = [] ↔ ∀ name ∈ names, n.descendantsNamed [name] = [] := by
  simp only [descendantsNamed, List.filter_eq_nil_iff, List.any_eq_true]
  constructor
  · rintro h name hname d hd ⟨_, hmem, hnamed⟩
    obtain rfl := List.mem_singleton.1 hmem
    exact h d hd ⟨_, hname, hnamed⟩
  · rintro h d hd ⟨name, hname, hnamed⟩
    exact h name hname d hd ⟨name, List.mem_singleton_self name, hnamed⟩

theorem nodes_of_name? {n : Node} {name : String} (h : n.name? = some name) :
    n.nodes = n :: n.descendants := by
  cases n with
  | element _ attributes content => rfl
  | _ => cases h

section Names

variable {names}

theorem any_named_of_name? {n : Node} {name : String} (h : n.name? = some name) :
    names.any n.named = names.contains name := by
  rw [List.contains_eq_any_beq]
  unfold named
  rw [h]
  rfl

mutual

/-- The outermost elements are nodes of the tree with one of the names. -/
theorem mem_of_mem_outermost {m : Node} (n : Node) (h : m ∈ n.outermost names) :
    m ∈ n.nodes.filter fun d => names.any d.named := by
  cases n with
  | element name attributes content =>
      rw [outermost] at h
      rw [nodes]
      split at h
      · next hname =>
        obtain rfl := List.mem_singleton.1 h
        exact List.mem_filter.2 ⟨List.mem_cons_self, (any_named_of_name? rfl).trans hname⟩
      · rw [List.filter_cons]
        have hm := mem_of_mem_outermostOf content h
        split
        · exact List.mem_cons_of_mem _ hm
        · exact hm
  | _ => cases h

theorem mem_of_mem_outermostOf {m : Node} (ns : List Node) (h : m ∈ outermostOf names ns) :
    m ∈ (nodesOf ns).filter fun d => names.any d.named := by
  cases ns with
  | nil => cases h
  | cons n ns =>
      rw [nodesOf, List.filter_append, List.mem_append]
      exact (List.mem_append.1 h).imp (mem_of_mem_outermost n) (mem_of_mem_outermostOf ns)

end

mutual

/-- No node around the outermost elements has one of their names. -/
theorem any_named_of_mem_around {d : Node} (n : Node) (h : d ∈ n.around names) :
    names.any d.named = false := by
  cases n with
  | element name attributes content =>
      rw [around] at h
      split at h
      · cases h
      · next hname =>
        rcases List.mem_cons.1 h with rfl | h
        · exact (any_named_of_name? rfl).trans (Bool.eq_false_iff.2 hname)
        · exact any_named_of_mem_aroundOf content h
  | _ =>
      obtain rfl := List.mem_singleton.1 h
      exact List.any_eq_false.2 fun name _ => nofun

theorem any_named_of_mem_aroundOf {d : Node} (ns : List Node) (h : d ∈ aroundOf names ns) :
    names.any d.named = false := by
  cases ns with
  | nil => cases h
  | cons n ns =>
      rcases List.mem_append.1 h with h | h
      · exact any_named_of_mem_around n h
      · exact any_named_of_mem_aroundOf ns h

end

/-- All elements with one of the names are in the outermost ones. -/
theorem descendantsNamed_eq_flatMap (n : Node) : n.descendantsNamed names =
    (n.outermostBelow names).flatMap fun m => m.nodes.filter fun d => names.any d.named := by
  have haround : ∀ d ∈ n.aroundBelow names,
      Option.guard (fun d : Node => names.any d.named) d = none := fun d hd =>
    Option.guard_eq_none_iff.2 (any_named_of_mem_aroundOf n.content hd)
  rw [descendantsNamed, ← List.filterMap_eq_filter, filterMap_descendants haround]

theorem outermostBelow_ne_nil {n : Node} (h : n.descendantsNamed names ≠ []) :
    n.outermostBelow names ≠ [] := by
  intro hnil
  rw [descendantsNamed_eq_flatMap, hnil] at h
  exact h rfl

theorem mem_descendantsNamed_of_mem_outermostBelow {n m : Node} (h : m ∈ n.outermostBelow names) :
    m ∈ n.descendantsNamed names :=
  mem_of_mem_outermostOf n.content h

theorem exists_name_of_mem_descendantsNamed {n m : Node} (h : m ∈ n.descendantsNamed names) :
    ∃ name ∈ names, m.name? = some name := by
  obtain ⟨name, hname, hnamed⟩ := List.any_eq_true.1 (List.mem_filter.1 h).2
  exact ⟨name, hname, (named_iff name m).1 hnamed⟩

/-- An element itself does not count among the elements with other names in it. -/
theorem filter_nodes_of_name? {n : Node} {name : String} {inner : List String}
    (h : n.name? = some name) (hname : name ∉ inner) :
    (n.nodes.filter fun d => inner.any d.named) = n.descendantsNamed inner := by
  rw [nodes_of_name? h, List.filter_cons_of_neg, descendantsNamed]
  rw [any_named_of_name? h]
  simpa using hname

/-- Elements that do not occur around the outermost ones occur below these only. -/
theorem descendantsNamed_flatMap {n : Node} {inner : List String}
    (hinner : ∀ name ∈ names, name ∉ inner)
    (h : ∀ d ∈ n.aroundBelow names, ∀ name ∈ inner, d.named name = false) :
    n.descendantsNamed inner = (n.outermostBelow names).flatMap (descendantsNamed inner) := by
  have haround : ∀ d ∈ n.aroundBelow names,
      Option.guard (fun d : Node => inner.any d.named) d = none := fun d hd => by
    rw [Option.guard_eq_none_iff, List.any_eq_false]
    exact fun name hname => Bool.eq_false_iff.1 (h d hd name hname)
  rw [descendantsNamed, ← List.filterMap_eq_filter, filterMap_descendants haround]
  refine List.flatMap_congr fun m hm => ?_
  obtain ⟨name, hname, hnamed⟩ :=
    exists_name_of_mem_descendantsNamed (mem_descendantsNamed_of_mem_outermostBelow hm)
  rw [List.filterMap_eq_filter]
  exact filter_nodes_of_name? hnamed (hinner name hname)

end Names

end FilterEncoding.Xml.Node
