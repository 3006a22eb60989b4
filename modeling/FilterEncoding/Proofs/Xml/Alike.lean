import FilterEncoding.Proofs.Xml.Outline
import FilterEncoding.Proofs.Xml.Segments
import FilterEncoding.Xml.Document
import Mathlib.Data.List.Forall2

/-!
# Readings that are alike

Two readings are alike if the elements they have open, and the root, have the same outlines.  They
stay alike while the same segments are read.  Text needs more than that: it may go on with the text
in front of an element, which must then be the same in both readings or complete in both.

* `Reading.Alike`, `Reading.Firm` — readings that are alike, and alike for text too.
* `Reading.Alike.step` — what one segment preserves.
* `Reading.Alike.run` — what any number of segments preserves.
-/

namespace FilterEncoding.Xml

namespace Node

def isText : Node → Bool
  | text _ => true
  | _ => false

theorem leadingText_append_of_ne_nil {ns : List Node} (h : ns ≠ []) (ms : List Node) :
    leadingText (ns ++ ms) = leadingText ns := by
  obtain ⟨n, ns, rfl⟩ := List.exists_cons_of_ne_nil h
  cases n <;> rfl

theorem leadingText_concat {n : Node} (hn : n.isText = false) (ns : List Node) :
    leadingText (ns ++ [n]) = leadingText ns := by
  cases ns with
  | nil =>
      cases n with
      | text value => cases hn
      | _ => rfl
  | cons m ns => exact leadingText_append_of_ne_nil (List.cons_ne_nil m ns) [n]

/-- Content, in reverse, with text at its end. -/
def withText (value : String) : List Node → List Node
  | text front :: before => text (front ++ value) :: before
  | before => text value :: before

theorem outlines_withText (value : String) (ns : List Node) :
    outlines (withText value ns) = outlines ns := by
  unfold withText
  split <;> rfl

theorem leadingText_withText {value : String} {ns : List Node} (h : ∃ n ∈ ns, n.isText = false) :
    leadingText (withText value ns).reverse = leadingText ns.reverse := by
  obtain ⟨n, hn, htext⟩ := h
  unfold withText
  split
  · next front before =>
    -- The text at the end of the content is not the text in front of it.
    have hbefore : before.reverse ≠ [] := by
      rw [Ne, List.reverse_eq_nil_iff]
      rintro rfl
      cases List.mem_singleton.1 hn
      cases htext
    rw [List.reverse_cons, List.reverse_cons, leadingText_append_of_ne_nil hbefore,
      leadingText_append_of_ne_nil hbefore]
  · rw [List.reverse_cons, leadingText_append_of_ne_nil]
    rw [Ne, List.reverse_eq_nil_iff]
    exact List.ne_nil_of_mem hn

theorem exists_not_isText_withText {value : String} {ns : List Node} :
    (∃ n ∈ withText value ns, n.isText = false) ↔ ∃ n ∈ ns, n.isText = false := by
  unfold withText
  split <;> simp [isText]

end Node

open Node (outline outlines isTextName leadingText withText)

namespace OpenElement

/-- Elements that are open and, as far as filters are read from them, the same. -/
structure Alike (e e' : OpenElement) : Prop where
  name : e.name = e'.name
  attributes : e.attributes = e'.attributes
  scope : e.scope = e'.scope
  elements : outlines e.content = outlines e'.content
  text : isTextName e.name.base = true →
    leadingText e.content.reverse = leadingText e'.content.reverse

/-- Whether the text in front of the content, if there is any, is complete. -/
def HasFront (e : OpenElement) : Prop :=
  ∃ n ∈ e.content, n.isText = false

/-- Elements in which more text makes no difference. -/
def Firm (e e' : OpenElement) : Prop :=
  isTextName e.name.base = true → e.content = e'.content ∨ e.HasFront ∧ e'.HasFront

theorem Alike.refl (e : OpenElement) : e.Alike e :=
  ⟨rfl, rfl, rfl, rfl, fun _ => rfl⟩

theorem Firm.refl (e : OpenElement) : e.Firm e :=
  fun _ => .inl rfl

variable {e e' : OpenElement}

/-- More content that is no text. -/
theorem Alike.push (h : e.Alike e') {n n' : Node} (hn : n.isText = false) (hn' : n'.isText = false)
    (houtlines : outlines [n] = outlines [n']) :
    Alike { e with content := n :: e.content } { e' with content := n' :: e'.content } where
  name := h.name
  attributes := h.attributes
  scope := h.scope
  elements := by
    calc outlines ([n] ++ e.content)
      _ = outlines [n] ++ outlines e.content := Node.outlines_append _ _
      _ = outlines [n'] ++ outlines e'.content := by rw [houtlines, h.elements]
      _ = outlines ([n'] ++ e'.content) := (Node.outlines_append _ _).symm
  text htext := by
    rw [List.reverse_cons, List.reverse_cons, Node.leadingText_concat hn,
      Node.leadingText_concat hn']
    exact h.text htext

theorem firm_push {n n' : Node} (hn : n.isText = false) (hn' : n'.isText = false) :
    Firm { e with content := n :: e.content } { e' with content := n' :: e'.content } :=
  fun _ => .inr ⟨⟨n, List.mem_cons_self, hn⟩, ⟨n', List.mem_cons_self, hn'⟩⟩

/-- More text. -/
theorem Alike.withText (h : e.Alike e') (hfirm : e.Firm e') (value : String) :
    Alike { e with content := withText value e.content }
      { e' with content := Node.withText value e'.content } where
  name := h.name
  attributes := h.attributes
  scope := h.scope
  elements := by
    rw [Node.outlines_withText, Node.outlines_withText]
    exact h.elements
  text htext := by
    rcases hfirm htext with hcontent | ⟨hfront, hfront'⟩
    · rw [hcontent]
    · rw [Node.leadingText_withText hfront, Node.leadingText_withText hfront']
      exact h.text htext

theorem Firm.withText (hfirm : e.Firm e') (value : String) :
    Firm { e with content := Node.withText value e.content }
      { e' with content := Node.withText value e'.content } := by
  intro htext
  rcases hfirm htext with hcontent | ⟨hfront, hfront'⟩
  · exact .inl (congrArg (Node.withText value) hcontent)
  · exact .inr ⟨Node.exists_not_isText_withText.2 hfront, Node.exists_not_isText_withText.2 hfront'⟩

/-- Elements that are alike have the same outline when they are complete. -/
theorem Alike.outline_eq (h : e.Alike e') :
    outline (.element e.name.base e.attributes e.content.reverse) =
      outline (.element e'.name.base e'.attributes e'.content.reverse) := by
  have hkept : Node.keptText e.name.base e.content.reverse =
      Node.keptText e.name.base e'.content.reverse := by
    unfold Node.keptText
    split
    · next htext => exact h.text htext
    · rfl
  rw [outline, outline, Node.outlines_reverse, Node.outlines_reverse, h.elements, hkept, h.name,
    h.attributes]

end OpenElement

namespace Reading

/-- Readings whose open elements, and whose roots, are alike. -/
structure Alike (r r' : Reading) : Prop where
  elements : List.Forall₂ OpenElement.Alike r.open? r'.open?
  root : r.root.map outline = r'.root.map outline

/-- Readings that text is added to alike. -/
def Firm (r r' : Reading) : Prop :=
  ∀ e ∈ r.open?.head?, ∀ e' ∈ r'.open?.head?, e.Firm e'

variable {r r' : Reading}

theorem Alike.refl (r : Reading) : r.Alike r where
  elements := List.forall₂_same.2 fun e _ => .refl e
  root := rfl

theorem Alike.isEmpty_eq (h : r.Alike r') : r.open?.isEmpty = r'.open?.isEmpty := by
  obtain ⟨es, root⟩ := r
  obtain ⟨es', root'⟩ := r'
  cases h.elements with
  | nil => rfl
  | cons _ _ => rfl

theorem Alike.scope_eq (h : r.Alike r') : r.scope = r'.scope := by
  obtain ⟨es, root⟩ := r
  obtain ⟨es', root'⟩ := r'
  cases h.elements with
  | nil => rfl
  | cons he _ => exact he.scope

theorem Alike.isSome_root_eq (h : r.Alike r') : r.root.isSome = r'.root.isSome := by
  have hroot := congrArg Option.isSome h.root
  rwa [Option.isSome_map, Option.isSome_map] at hroot

/-! ## What a segment preserves -/

theorem Alike.addAside (h : r.Alike r') {n : Node} (hn : n.isText = false) :
    (r.addAside n).Alike (r'.addAside n) ∧ (r.addAside n).Firm (r'.addAside n) := by
  obtain ⟨es, root⟩ := r
  obtain ⟨es', root'⟩ := r'
  obtain ⟨helements, hroot⟩ := h
  cases helements with
  | nil => exact ⟨⟨.nil, hroot⟩, fun e he => by cases he⟩
  | cons he hes =>
      refine ⟨⟨.cons (he.push hn hn rfl) hes, hroot⟩, fun _ h _ h' => ?_⟩
      cases h
      cases h'
      exact OpenElement.firm_push hn hn

theorem Alike.addElement? (h : r.Alike r') {n n' : Node} (hn : n.isElement = true)
    (houtline : n.outline = n'.outline) {q : Reading} (hq : r.addElement? n = some q) :
    ∃ q', r'.addElement? n' = some q' ∧ q.Alike q' ∧ q.Firm q' := by
  have hn' : n'.isElement = true := by
    rw [← Node.isElement_outline, ← houtline, Node.isElement_outline, hn]
  obtain ⟨es, root⟩ := r
  obtain ⟨es', root'⟩ := r'
  have hisSome := h.isSome_root_eq
  obtain ⟨helements, hroot⟩ := h
  cases helements with
  | nil =>
      obtain ⟨hnone, heq⟩ := Option.ite_none_left_eq_some.1 hq
      cases heq
      refine ⟨⟨[], some n'⟩, ?_, ⟨.nil, congrArg some houtline⟩, fun e he => by cases he⟩
      exact if_neg (hisSome ▸ hnone)
  | @cons e e' es es' he hes =>
      cases hq
      -- Elements are no text, so that the text in front of both contents is complete now.
      have htext : n.isText = false := by
        cases n <;> first | rfl | cases hn
      have htext' : n'.isText = false := by
        cases n' <;> first | rfl | cases hn'
      have houtlines : outlines [n] = outlines [n'] := by
        simp [outlines, hn, hn', houtline]
      refine ⟨_, rfl, ⟨.cons (he.push htext htext' houtlines) hes, hroot⟩, fun _ h _ h' => ?_⟩
      cases h
      cases h'
      exact OpenElement.firm_push htext htext'

theorem Alike.addText? (h : r.Alike r') (hfirm : r.Firm r') {value : String} {q : Reading}
    (hq : r.addText? value = some q) :
    ∃ q', r'.addText? value = some q' ∧ q.Alike q' ∧ q.Firm q' := by
  obtain ⟨es, root⟩ := r
  obtain ⟨es', root'⟩ := r'
  obtain ⟨helements, hroot⟩ := h
  cases helements with
  | nil => cases hq
  | @cons e e' es es' he hes =>
      cases hq
      have hfirm : e.Firm e' := hfirm e rfl e' rfl
      refine ⟨_, rfl, ⟨.cons (he.withText hfirm value) hes, hroot⟩, fun _ h _ h' => ?_⟩
      cases h
      cases h'
      exact hfirm.withText value

theorem Alike.openTag? (h : r.Alike r') {tag : StartTag} {q : Reading}
    (hq : r.openTag? tag = some q) :
    ∃ q', r'.openTag? tag = some q' ∧ q.Alike q' ∧ q.Firm q' := by
  obtain ⟨⟨scope, attributes⟩, henter, hq⟩ := Option.bind_eq_some_iff.1 hq
  rw [h.scope_eq] at henter
  unfold Reading.openTag?
  rw [henter, Option.bind_eq_bind, Option.bind_some]
  dsimp only at hq ⊢
  split at hq
  · next hclosed =>
    rw [if_pos hclosed]
    exact h.addElement? rfl rfl hq
  · next hclosed =>
    obtain ⟨hroot, heq⟩ := Option.ite_none_left_eq_some.1 hq
    cases heq
    rw [if_neg hclosed, if_neg (h.isEmpty_eq ▸ h.isSome_root_eq ▸ hroot)]
    refine ⟨_, rfl, ⟨.cons (.refl _) h.elements, h.root⟩, fun _ h _ h' => ?_⟩
    cases h
    cases h'
    exact OpenElement.Firm.refl _

theorem Alike.closeTag? (h : r.Alike r') {name : QualifiedName} {q : Reading}
    (hq : r.closeTag? name = some q) :
    ∃ q', r'.closeTag? name = some q' ∧ q.Alike q' ∧ q.Firm q' := by
  obtain ⟨es, root⟩ := r
  obtain ⟨es', root'⟩ := r'
  obtain ⟨helements, hroot⟩ := h
  cases helements with
  | nil => cases hq
  | @cons e e' es es' he hes =>
      obtain ⟨hname, hq⟩ := Option.ite_none_right_eq_some.1 hq
      have hname' : e'.name = name := he.name ▸ hname
      have hrest : Alike ⟨es, root⟩ ⟨es', root'⟩ := ⟨hes, hroot⟩
      obtain ⟨q', hq', halike⟩ := hrest.addElement? rfl he.outline_eq hq
      exact ⟨q', (if_pos hname').trans hq', halike⟩

/-- Markup, other than a CDATA section, leaves readings that are alike so that they are for text
too. -/
theorem Alike.step_markup (h : r.Alike r') {s : Segment} (htext : s.isText = false)
    (hcdata : ∀ body, s ≠ .cdata body) {q : Reading} (hq : r.step? s = some q) :
    ∃ q', r'.step? s = some q' ∧ q.Alike q' ∧ q.Firm q' := by
  cases s with
  | text raw => cases htext
  | cdata body => exact absurd rfl (hcdata body)
  | comment body | instruction body =>
      obtain ⟨hbody, heq⟩ := Option.ite_none_right_eq_some.1 hq
      cases heq
      exact ⟨_, if_pos hbody, h.addAside rfl⟩
  | startTag body =>
      obtain ⟨tag, htag, hq⟩ := Option.bind_eq_some_iff.1 hq
      obtain ⟨q', hq', halike⟩ := h.openTag? hq
      exact ⟨q', Option.bind_eq_some_iff.2 ⟨tag, htag, hq'⟩, halike⟩
  | endTag body =>
      obtain ⟨name, hname, hq⟩ := Option.bind_eq_some_iff.1 hq
      obtain ⟨q', hq', halike⟩ := h.closeTag? hq
      exact ⟨q', Option.bind_eq_some_iff.2 ⟨name, hname, hq'⟩, halike⟩

/-- Readings that are alike for text too stay so. -/
theorem Alike.step (h : r.Alike r') (hfirm : r.Firm r') {s : Segment} {q : Reading}
    (hq : r.step? s = some q) : ∃ q', r'.step? s = some q' ∧ q.Alike q' ∧ q.Firm q' := by
  cases s with
  | text raw =>
      rw [step?, h.isEmpty_eq] at hq
      rw [step?]
      split at hq
      · next hempty =>
        obtain ⟨hspace, heq⟩ := Option.ite_none_right_eq_some.1 hq
        cases heq
        rw [if_pos hempty, if_pos hspace]
        exact ⟨r', rfl, h, hfirm⟩
      · next hempty =>
        obtain ⟨value, hvalue, hq⟩ := Option.bind_eq_some_iff.1 hq
        rw [if_neg hempty, hvalue, Option.bind_some]
        exact h.addText? hfirm hq
  | cdata body => exact h.addText? hfirm hq
  | comment body | instruction body | startTag body | endTag body =>
      exact h.step_markup rfl (fun _ => Segment.noConfusion) hq

/-- So do readings after any segments. -/
theorem Alike.run (h : r.Alike r') (hfirm : r.Firm r') {ss : List Segment} {q : Reading}
    (hq : ss.foldlM step? r = some q) : ∃ q', ss.foldlM step? r' = some q' ∧ q.Alike q' := by
  -- `Alike` alone does not carry the induction: text keeps it only between firm readings.
  induction ss generalizing r r' with
  | nil =>
      cases hq
      exact ⟨r', rfl, h⟩
  | cons s ss ih =>
      rw [List.foldlM_cons] at hq
      obtain ⟨middle, hmiddle, hq⟩ := Option.bind_eq_some_iff.1 hq
      obtain ⟨middle', hmiddle', halike, hfirm⟩ := h.step hfirm hmiddle
      obtain ⟨q', hq', hresult⟩ := ih halike hfirm hq
      exact ⟨q', by rw [List.foldlM_cons, Option.bind_eq_bind, hmiddle', Option.bind_some, hq'],
        hresult⟩

theorem Alike.finish? (h : r.Alike r') {root : Node} (hroot : r.finish? = some root) :
    ∃ root', r'.finish? = some root' ∧ root.outline = root'.outline := by
  obtain ⟨hempty, hroot⟩ := Option.ite_none_right_eq_some.1 hroot
  have hroots := h.root
  rw [hroot, Option.map_some, eq_comm, Option.map_eq_some_iff] at hroots
  obtain ⟨root', hroot', houtline⟩ := hroots
  exact ⟨root', (if_pos (h.isEmpty_eq ▸ hempty)).trans hroot', houtline.symm⟩

end Reading

end FilterEncoding.Xml
