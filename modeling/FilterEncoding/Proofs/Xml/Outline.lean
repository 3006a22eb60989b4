import FilterEncoding.Xml.Node

/-!
# Outlines

Filters are read from few things of a document: its elements with their attributes, and the text
that some of these elements start with.  The outline of a tree keeps these and nothing else.

* `Node.outline` — the outline of a tree.
* `Node.child?_outline`, `Node.descendant?_outline`, `Node.descendantsNamed_outline` — the elements
  that are found in an outline are the outlines of those that are found in the tree.
* `Node.text?_outline` — an element that filters take text from keeps it.
-/

namespace FilterEncoding.Xml

namespace Node

/-- The names of the elements that filters take text from. -/
def textNames : List String :=
  ["PropertyName", "ValueReference", "Literal", "LowerBoundary", "UpperBoundary", "Distance",
   "coordinates", "X", "Y", "pos", "posList", "lowerCorner", "upperCorner"]

def isTextName (name : String) : Bool :=
  textNames.contains name

/-- The text in front of the other content. -/
def leadingText : List Node → List Node
  | text value :: _ => [text value]
  | _ => []

/-- The text in front, in an element that filters take text from. -/
def keptText (name : String) (content : List Node) : List Node :=
  if isTextName name then leadingText content else []

mutual

/-- The elements of a tree with their attributes and the text that is taken from them. -/
def outline : Node → Node
  | element name attributes content =>
      element name attributes (keptText name content ++ outlines content)
  | n => n

/-- The outlines of the elements among some nodes. -/
def outlines : List Node → List Node
  | [] => []
  | n :: ns => if n.isElement then n.outline :: outlines ns else outlines ns

end

theorem outlines_eq (ns : List Node) : outlines ns = (ns.filter isElement).map outline := by
  induction ns with
  | nil => rfl
  | cons n ns ih => by_cases hn : n.isElement <;> simp [outlines, hn, ih]

theorem outlines_append (ns ms : List Node) : outlines (ns ++ ms) = outlines ns ++ outlines ms := by
  simp [outlines_eq]

theorem outlines_reverse (ns : List Node) : outlines ns.reverse = (outlines ns).reverse := by
  simp [outlines_eq, List.filter_reverse]

@[simp]
theorem name?_outline (n : Node) : n.outline.name? = n.name? := by
  cases n <;> rfl

@[simp]
theorem isElement_outline (n : Node) : n.outline.isElement = n.isElement := by
  cases n <;> rfl

@[simp]
theorem named_outline (name : String) (n : Node) : n.outline.named name = n.named name := by
  simp [named]

@[simp]
theorem attribute?_outline (key : String) (n : Node) :
    n.outline.attribute? key = n.attribute? key := by
  cases n <;> rfl

theorem isElement_of_named {name : String} {n : Node} (h : n.named name = true) :
    n.isElement = true := by
  cases n <;> simp_all [named, name?, isElement]

theorem not_isElement_of_mem_keptText {name : String} {content : List Node} {n : Node}
    (h : n ∈ keptText name content) : ¬n.isElement = true := by
  unfold keptText leadingText at h
  repeat' split at h
  all_goals simp_all [isElement]

/-! ## Elements that are found -/

/-- The elements among `ns` are the outlines of those among `ms`. -/
def AreOutlines (ns ms : List Node) : Prop :=
  ns.filter isElement = (ms.filter isElement).map outline

namespace AreOutlines

variable {ns ms : List Node} (h : AreOutlines ns ms)

include h

theorem filter {p : Node → Bool} (hp : ∀ n, p n = true → n.isElement = true)
    (houtline : ∀ n, p n.outline = p n) : ns.filter p = (ms.filter p).map outline := by
  -- What is searched for is an element, so that the other nodes can be left out first.
  have hfilter : ∀ ks : List Node, ks.filter p = (ks.filter isElement).filter p := fun ks => by
    rw [List.filter_filter]
    exact List.filter_congr fun n _ => by cases hn : p n <;> simp [hn, hp n]
  rw [hfilter ns, hfilter ms, h, List.filter_map]
  congr 1
  exact List.filter_congr fun n _ => houtline n

theorem filter_named (name : String) :
    ns.filter (named name) = (ms.filter (named name)).map outline :=
  h.filter (fun _ => isElement_of_named) (named_outline name)

theorem find?_named (name : String) :
    ns.find? (named name) = (ms.find? (named name)).map outline := by
  rw [← List.head?_filter, ← List.head?_filter, h.filter_named, List.head?_map]

/-- What is asked of attributes is the same for both. -/
theorem findSome?_attribute? (key : String) :
    ns.findSome? (attribute? key) = ms.findSome? (attribute? key) := by
  have hfilter : ∀ ks : List Node, ks.findSome? (attribute? key) =
      (ks.filter isElement).findSome? (attribute? key) := fun ks => by
    induction ks with
    | nil => rfl
    | cons n ks ih =>
        rw [List.findSome?_cons, ih]
        cases n with
        | element name attributes content => rfl
        | _ => rfl
  rw [hfilter ns, hfilter ms, h, List.findSome?_map]
  congr 1
  funext n
  exact attribute?_outline key n

end AreOutlines

theorem areOutlines_outlines (ns : List Node) : AreOutlines (outlines ns) ns := by
  have hfilter : (ns.filter isElement).filter (isElement ∘ outline) = ns.filter isElement := by
    rw [List.filter_eq_self]
    exact fun n hn => (isElement_outline n).trans (List.mem_filter.1 hn).2
  rw [AreOutlines, outlines_eq, List.filter_map, hfilter]

theorem AreOutlines.append {ns ms ns' ms' : List Node} (h : AreOutlines ns ms)
    (h' : AreOutlines ns' ms') : AreOutlines (ns ++ ns') (ms ++ ms') := by
  unfold AreOutlines at *
  rw [List.filter_append, List.filter_append, List.map_append, h, h']

theorem areOutlines_keptText (name : String) (content : List Node) :
    AreOutlines (keptText name content) [] :=
  List.filter_eq_nil_iff.2 fun _ => not_isElement_of_mem_keptText

theorem areOutlines_content (n : Node) : AreOutlines n.outline.content n.content := by
  cases n with
  | element name attributes content =>
      exact (areOutlines_keptText name content).append (areOutlines_outlines content)
  | _ => rfl

theorem nodesOf_keptText (name : String) (content : List Node) :
    nodesOf (keptText name content) = keptText name content := by
  unfold keptText leadingText
  repeat' split
  all_goals rfl

mutual

theorem areOutlines_nodes (n : Node) : AreOutlines n.outline.nodes n.nodes := by
  cases n with
  | element name attributes content =>
      have hkept : AreOutlines (nodesOf (keptText name content)) [] := by
        rw [nodesOf_keptText]
        exact areOutlines_keptText name content
      have hself : AreOutlines [(element name attributes content).outline]
          [element name attributes content] := rfl
      rw [outline, nodes, nodesOf_append, nodes]
      exact hself.append (hkept.append (areOutlines_nodesOf content))
  | _ => rfl

theorem areOutlines_nodesOf (ns : List Node) :
    AreOutlines (nodesOf (outlines ns)) (nodesOf ns) := by
  cases ns with
  | nil => rfl
  | cons n ns =>
      have hn := areOutlines_nodes n
      have hns := areOutlines_nodesOf ns
      cases n with
      | element name attributes content => exact hn.append hns
      | _ => exact hns

end

theorem areOutlines_descendants (n : Node) :
    AreOutlines n.outline.descendants n.descendants := by
  cases n with
  | element name attributes content =>
      rw [descendants, outline, Node.content, nodesOf_append, nodesOf_keptText]
      exact (areOutlines_keptText name content).append (areOutlines_nodesOf content)
  | _ => rfl

/-! ## What is asked of an outline -/

@[simp]
theorem elements_outline (n : Node) : n.outline.elements = n.elements.map outline :=
  areOutlines_content n

@[simp]
theorem filter_named_outline (name : String) (n : Node) :
    n.outline.content.filter (named name) = (n.content.filter (named name)).map outline :=
  (areOutlines_content n).filter_named name

@[simp]
theorem child?_outline (name : String) (n : Node) :
    n.outline.child? name = (n.child? name).map outline :=
  (areOutlines_content n).find?_named name

@[simp]
theorem descendant?_outline (name : String) (n : Node) :
    n.outline.descendant? name = (n.descendant? name).map outline :=
  (areOutlines_descendants n).find?_named name

@[simp]
theorem descendantsNamed_outline (names : List String) (n : Node) :
    n.outline.descendantsNamed names = (n.descendantsNamed names).map outline := by
  refine (areOutlines_descendants n).filter (fun d hd => ?_) fun d => by simp
  obtain ⟨name, -, hname⟩ := List.any_eq_true.1 hd
  exact isElement_of_named hname

theorem isElement_of_mem_outlines {n : Node} {ns : List Node} (h : n ∈ outlines ns) :
    n.isElement = true := by
  rw [outlines_eq] at h
  obtain ⟨m, hm, rfl⟩ := List.mem_map.1 h
  exact (isElement_outline m).trans (List.mem_filter.1 hm).2

theorem text?_outlines (name : String) (attributes : List Attribute) (ns : List Node) :
    (element name attributes (outlines ns)).text? = none := by
  unfold text? Node.content
  dsimp only
  split
  · next hns =>
    have htext := isElement_of_mem_outlines (hns ▸ List.mem_cons_self)
    cases htext
  · rfl

/-- An element that filters take text from keeps it. -/
theorem text?_outline {name : String} {n : Node} (hname : n.name? = some name)
    (htext : isTextName name = true) : n.outline.text? = n.text? := by
  cases n with
  | element _ attributes content =>
      cases hname
      rw [outline, keptText, if_pos htext]
      match content with
      | [] => rfl
      | text value :: ns => rfl
      | element _ _ _ :: ns => rfl
      | comment _ :: ns => exact text?_outlines name attributes ns
      | instruction _ :: ns => exact text?_outlines name attributes ns
  | _ => rfl

end Node

end FilterEncoding.Xml
