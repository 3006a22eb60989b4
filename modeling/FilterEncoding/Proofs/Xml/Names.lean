import FilterEncoding.Proofs.Xml.Reading

/-!
# Names of a document

Every element of a tree has a name that stands in the text the tree is read from.  The elements that
are open, what they contain, and the root keep to this with every segment.

* `Node.Named` — trees whose elements have certain names.
* `Reading.Named.step`, `Reading.Named.run` — what one segment preserves, and what all of them do.
* `Xml.infix_of_named_document?` — names of elements in a tree.
-/

namespace FilterEncoding.Xml

/-! ## Trees -/

namespace Node

/-- Trees in which all elements have names with a property. -/
def Named (P : String → Prop) (ns : List Node) : Prop :=
  ∀ n ∈ nodesOf ns, ∀ name, n.name? = some name → P name

variable {P : String → Prop}

theorem named_nil : Named P [] :=
  fun _ hn => by cases hn

theorem named_append (ns ms : List Node) : Named P (ns ++ ms) ↔ Named P ns ∧ Named P ms := by
  simp only [Named, nodesOf_append, List.mem_append, or_imp, forall_and]

theorem named_cons (n : Node) (ns : List Node) : Named P (n :: ns) ↔ Named P [n] ∧ Named P ns :=
  named_append [n] ns

theorem named_reverse (ns : List Node) : Named P ns.reverse ↔ Named P ns := by
  induction ns with
  | nil => rfl
  | cons n ns ih => rw [List.reverse_cons, named_append, ih, named_cons n ns, and_comm]

theorem named_element (name : String) (attributes : List Attribute) (content : List Node) :
    Named P [.element name attributes content] ↔ P name ∧ Named P content := by
  simp [Named, nodesOf, nodes, name?]

/-- Nodes that are not elements have no names. -/
theorem named_of_not_isElement {n : Node} (h : n.isElement = false) : Named P [n] := by
  cases n with
  | element name attributes content => cases h
  | _ => simp [Named, nodesOf, nodes, name?]

theorem named_withText {ns : List Node} (h : Named P ns) (value : String) :
    Named P (withText value ns) := by
  unfold withText
  split
  · next before =>
    exact (named_cons _ before).2 ⟨named_of_not_isElement rfl, ((named_cons _ _).1 h).2⟩
  · exact (named_cons _ ns).2 ⟨named_of_not_isElement rfl, h⟩

end Node

open Node (withText)

/-! ## Readings -/

namespace Reading

/-- Readings in which all elements have names with a property. -/
structure Named (P : String → Prop) (r : Reading) : Prop where
  elements : ∀ e ∈ r.open?, P e.name.base ∧ Node.Named P e.content
  root : ∀ n, r.root = some n → Node.Named P [n]

variable {P : String → Prop}

theorem Named.start : Named P start where
  elements _ he := by cases he
  root _ hn := by cases hn

/-- More content of the innermost element. -/
theorem Named.content {e : OpenElement} {es : List OpenElement} {root : Option Node}
    (h : Named P ⟨e :: es, root⟩) {content : List Node} (hcontent : Node.Named P content) :
    Named P ⟨{ e with content } :: es, root⟩ where
  elements e' he' := by
    rcases List.mem_cons.1 he' with rfl | he'
    · exact ⟨(h.elements e List.mem_cons_self).1, hcontent⟩
    · exact h.elements e' (List.mem_cons_of_mem e he')
  root := h.root

theorem Named.content_of_mem {e : OpenElement} {es : List OpenElement} {root : Option Node}
    (h : Named P ⟨e :: es, root⟩) : Node.Named P e.content :=
  (h.elements e List.mem_cons_self).2

variable {r q : Reading}

theorem Named.addAside (h : r.Named P) {n : Node} (hn : n.isElement = false) :
    (r.addAside n).Named P := by
  obtain ⟨es, root⟩ := r
  cases es with
  | nil => exact h
  | cons e es =>
      exact h.content ((Node.named_cons n _).2 ⟨Node.named_of_not_isElement hn, h.content_of_mem⟩)

theorem Named.addText? (h : r.Named P) {value : String} (hq : r.addText? value = some q) :
    q.Named P := by
  obtain ⟨es, root⟩ := r
  cases es with
  | nil => cases hq
  | cons e es =>
      cases hq
      exact h.content (Node.named_withText h.content_of_mem value)

theorem Named.addElement? (h : r.Named P) {n : Node} (hn : Node.Named P [n])
    (hq : r.addElement? n = some q) : q.Named P := by
  obtain ⟨es, root⟩ := r
  cases es with
  | nil =>
      obtain ⟨-, heq⟩ := Option.ite_none_left_eq_some.1 hq
      cases heq
      exact ⟨h.elements, fun m hm => by cases hm; exact hn⟩
  | cons e es =>
      cases hq
      exact h.content ((Node.named_cons n _).2 ⟨hn, h.content_of_mem⟩)

theorem Named.openTag? (h : r.Named P) {tag : StartTag} (htag : P tag.name.base)
    (hq : r.openTag? tag = some q) : q.Named P := by
  obtain ⟨⟨scope, attributes⟩, -, hq⟩ := Option.bind_eq_some_iff.1 hq
  dsimp only at hq
  split at hq
  · exact h.addElement? ((Node.named_element _ _ _).2 ⟨htag, Node.named_nil⟩) hq
  · obtain ⟨-, heq⟩ := Option.ite_none_left_eq_some.1 hq
    cases heq
    refine ⟨fun e he => ?_, h.root⟩
    rcases List.mem_cons.1 he with rfl | he
    · exact ⟨htag, Node.named_nil⟩
    · exact h.elements e he

theorem Named.closeTag? (h : r.Named P) {name : QualifiedName} (hq : r.closeTag? name = some q) :
    q.Named P := by
  obtain ⟨es, root⟩ := r
  cases es with
  | nil => cases hq
  | cons e es =>
      obtain ⟨-, hq⟩ := Option.ite_none_right_eq_some.1 hq
      obtain ⟨hname, hcontent⟩ := h.elements e List.mem_cons_self
      have hrest : Named P ⟨es, root⟩ :=
        ⟨fun e' he' => h.elements e' (List.mem_cons_of_mem e he'), h.root⟩
      exact hrest.addElement?
        ((Node.named_element _ _ _).2 ⟨hname, (Node.named_reverse _).2 hcontent⟩) hq

/-- A segment adds no name but that of its start tag. -/
theorem Named.step (h : r.Named P) {s : Segment}
    (htags : ∀ tag, startTag? s.body = some tag → P tag.name.base) (hq : r.step? s = some q) :
    q.Named P := by
  cases s with
  | text raw =>
      rw [step?] at hq
      split at hq
      · obtain ⟨-, heq⟩ := Option.ite_none_right_eq_some.1 hq
        cases heq
        exact h
      · obtain ⟨value, -, hq⟩ := Option.bind_eq_some_iff.1 hq
        exact h.addText? hq
  | cdata body => exact h.addText? hq
  | comment body | instruction body =>
      obtain ⟨-, heq⟩ := Option.ite_none_right_eq_some.1 hq
      cases heq
      exact h.addAside rfl
  | startTag body =>
      obtain ⟨tag, htag, hq⟩ := Option.bind_eq_some_iff.1 hq
      exact h.openTag? (htags tag htag) hq
  | endTag body =>
      obtain ⟨name, -, hq⟩ := Option.bind_eq_some_iff.1 hq
      exact h.closeTag? hq

/-- Nor do any segments. -/
theorem Named.run (h : r.Named P) {ss : List Segment}
    (htags : ∀ s ∈ ss, ∀ tag, startTag? s.body = some tag → P tag.name.base)
    (hq : ss.foldlM step? r = some q) : q.Named P := by
  induction ss generalizing r with
  | nil =>
      cases hq
      exact h
  | cons s ss ih =>
      rw [List.foldlM_cons] at hq
      obtain ⟨middle, hmiddle, hq⟩ := Option.bind_eq_some_iff.1 hq
      exact ih (h.step (htags s List.mem_cons_self) hmiddle)
        (fun s hs => htags s (List.mem_cons_of_mem _ hs)) hq

end Reading

/-! ## Documents -/

theorem base_infix_of_qualifiedName? {cs : List Char} {name : QualifiedName}
    (h : qualifiedName? cs = some name) : name.base.toList <:+: cs := by
  unfold qualifiedName? at h
  split at h
  · obtain ⟨-, heq⟩ := Option.ite_none_right_eq_some.1 h
    cases heq
    simp
  · next qualifier base hcut =>
    obtain ⟨-, heq⟩ := Option.ite_none_right_eq_some.1 h
    cases heq
    rw [String.toList_ofList, Chars.eq_append_of_cutFirst hcut]
    exact ⟨qualifier ++ [':'], [], by simp⟩

/-- The name of a start tag stands in it. -/
theorem base_infix_of_startTag? {body : List Char} {tag : StartTag}
    (h : startTag? body = some tag) : tag.name.base.toList <:+: body := by
  obtain ⟨⟨name, rest⟩, hname, h⟩ := Option.bind_eq_some_iff.1 h
  obtain ⟨attributes, -, h⟩ := Option.bind_eq_some_iff.1 h
  cases h
  obtain ⟨_, hqualified, heq⟩ := Option.map_eq_some_iff.1 hname
  cases heq
  have hwritten := (base_infix_of_qualifiedName? hqualified).trans
    (List.takeWhile_prefix _).isInfix
  refine hwritten.trans ?_
  split
  · exact (List.dropLast_prefix body).isInfix
  · exact List.infix_refl body

theorem named_of_reading? {cs : List Char} {r : Reading} (h : reading? cs = some r) :
    r.Named fun name => name.toList <:+: cs := by
  obtain ⟨body, hbody, h⟩ := Option.bind_eq_some_iff.1 h
  obtain ⟨ss, hss, h⟩ := Option.bind_eq_some_iff.1 h
  -- The name of a tag stands in its segment, which stands in the text behind the declaration.
  refine Reading.Named.start.run (fun s hs tag htag => ?_) h
  have hsegment : s.body <:+: body := (cuts_of_segments hss).isInfix_body s hs
  exact ((base_infix_of_startTag? htag).trans hsegment).trans
    (suffix_of_dropDeclaration? hbody).isInfix

/-- Names of elements stand in the document. -/
theorem infix_of_named_document? {cs : List Char} {root n : Node} {name : String}
    (h : document? (String.ofList cs) = some root) (hn : n ∈ root.nodes)
    (hname : n.name? = some name) : name.toList <:+: cs := by
  rw [document?_ofList] at h
  obtain ⟨-, h⟩ := Option.ite_none_right_eq_some.1 h
  obtain ⟨r, hr, h⟩ := Option.bind_eq_some_iff.1 h
  obtain ⟨-, hroot⟩ := Option.ite_none_right_eq_some.1 h
  refine (named_of_reading? hr).root root hroot n ?_ name hname
  rwa [Node.nodesOf, Node.nodesOf, List.append_nil]

end FilterEncoding.Xml
