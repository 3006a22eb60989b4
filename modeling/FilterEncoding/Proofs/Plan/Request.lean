import FilterEncoding.Layer.Schema
import FilterEncoding.Plan
import FilterEncoding.Proofs.Chars.Cut
import FilterEncoding.Proofs.Expression.Expressing
import FilterEncoding.Proofs.Predicate.WellFormed

/-!
# Requests

A request is a filter document for a layer.  It is answered with a plan only if it passes all
checks, and otherwise with the error of the first check that it does not pass.

* `Predicate.IsFirst` — the first node, each node before its children, with a property.
* `LayerSchema.Answers` — what a request is answered with, one case for each check that may fail.
* `LayerSchema.apply_eq_iff` — this is what a layer answers.
-/

namespace FilterEncoding

open FilterEncoding.Geometry (Engine)

/-! ## Type names in front of ids -/

/-- The type name of an id is what stands in front of its last dot. -/
theorem FeatureId.typeName?_eq_some_iff {id typeName : String} :
    FeatureId.typeName? id = some typeName ↔
      ∃ rest : String, id = typeName ++ "." ++ rest ∧ '.' ∉ rest.toList := by
  unfold typeName?
  rw [Option.map_eq_some_iff]
  constructor
  · rintro ⟨⟨_, rest⟩, hcut, rfl⟩
    obtain ⟨hid, hrest⟩ := Text.cutLast_eq_some_iff.1 hcut
    refine ⟨rest, ?_, hrest⟩
    rw [← String.toList_inj]
    simpa using hid
  · rintro ⟨rest, rfl, hrest⟩
    exact ⟨(typeName, rest), Text.cutLast_eq_some_iff.2 ⟨by simp, hrest⟩, rfl⟩

/-! ## Checks -/

namespace Predicate

/-- The first node of a predicate with a property. -/
def IsFirst (p : Predicate) (offends : Predicate → Prop) (n : Predicate) : Prop :=
  ∃ before after, p.nodes = before ++ n :: after ∧ (∀ m ∈ before, ¬offends m) ∧ offends n

section Refuse

variable {offence? : Predicate → Option Offence} {offends : Predicate → Prop} {p : Predicate}

theorem refuse_eq_ok_iff (hoffends : ∀ n, offence? n = none ↔ ¬offends n) :
    refuse offence? p = .ok () ↔ ∀ n ∈ p.nodes, ¬offends n := by
  rw [← forall₂_congr fun n _ => hoffends n, ← List.findSome?_eq_none_iff]
  unfold refuse
  cases p.nodes.findSome? offence? <;> simp

theorem refuse_eq_error_iff (hoffends : ∀ n, offence? n = none ↔ ¬offends n) {offence : Offence} :
    refuse offence? p = .error offence ↔ ∃ n, p.IsFirst offends n ∧ offence? n = some offence := by
  have hfind : refuse offence? p = .error offence ↔
      p.nodes.findSome? offence? = some offence := by
    unfold refuse
    cases p.nodes.findSome? offence? <;> simp
  rw [hfind, List.findSome?_eq_some_iff]
  constructor
  · rintro ⟨before, n, after, hnodes, hn, hbefore⟩
    refine ⟨n, ⟨before, after, hnodes, fun m hm => (hoffends m).1 (hbefore m hm), ?_⟩, hn⟩
    by_contra hnot
    rw [(hoffends n).2 hnot] at hn
    cases hn
  · rintro ⟨n, ⟨before, after, hnodes, hbefore, -⟩, hn⟩
    exact ⟨before, n, after, hnodes, hn, fun m hm => (hoffends m).2 (hbefore m hm)⟩

end Refuse

/-- Whether a node is a comparison with the bounds of the feature. -/
def ComparesBounds (n : Predicate) : Prop :=
  n.comparedProperty? = some "gml:boundedBy"

theorem exists_of_comparedProperty? {n : Predicate} {name : String}
    (h : n.comparedProperty? = some name) :
    ∃ op right like, n = comparison op (property name) right like := by
  unfold comparedProperty? at h
  split at h
  · cases h
    exact ⟨_, _, _, rfl⟩
  · cases h

theorem operandOffence?_eq_none_iff (n : Predicate) :
    (n.comparedProperty?.bind fun name =>
      if name = boundsProperty then some (Offence.invalidOperand name) else none) = none ↔
    ¬n.ComparesBounds := by
  unfold ComparesBounds boundsProperty
  cases n.comparedProperty? <;> simp

theorem checkOperands_eq_ok_iff {p : Predicate} :
    p.checkOperands = .ok () ↔ ∀ n ∈ p.nodes, ¬n.ComparesBounds :=
  refuse_eq_ok_iff operandOffence?_eq_none_iff

theorem checkOperands_eq_error_iff {p : Predicate} {offence : Offence} :
    p.checkOperands = .error offence ↔
      ∃ n, p.IsFirst ComparesBounds n ∧ offence = .invalidOperand "gml:boundedBy" := by
  unfold checkOperands
  rw [refuse_eq_error_iff operandOffence?_eq_none_iff]
  refine exists_congr fun n => and_congr_right fun hfirst => ?_
  obtain ⟨-, -, -, -, hn⟩ := hfirst
  rw [ComparesBounds] at hn
  rw [hn, Option.bind_some, boundsProperty, if_pos rfl, Option.some.injEq, eq_comm]

end Predicate

namespace LayerSchema

variable (s : LayerSchema)

/-- Whether a name is that of a visible attribute, up to the case of ASCII letters. -/
def Shows (name : String) : Prop :=
  ∃ item ∈ s.items, Text.same name item = true

/-- Whether a part of a feature id has a type name in front of its last dot that is not the layer's
name, up to the case of ASCII letters. -/
def IsForeign (part : String) : Prop :=
  ∃ typeName rest : String, part = typeName ++ "." ++ rest ∧ '.' ∉ rest.toList ∧
    ¬Text.same typeName s.name = true

/-- Whether a node is a comparison with a property that is no visible attribute. -/
def ComparesHidden (n : Predicate) : Prop :=
  ∃ name, n.comparedProperty? = some name ∧ ¬s.Shows name

/-- Whether a node has a part of a feature id with the type name of another layer. -/
def ListsForeign (n : Predicate) : Prop :=
  ∃ tokens, n = .featureIds tokens ∧ ∃ part ∈ FeatureId.parts tokens, s.IsForeign part

theorem hasAttribute_iff (name : String) : s.hasAttribute name = true ↔ s.Shows name := by
  unfold hasAttribute Shows
  rw [List.any_eq_true]

theorem propertyOffence?_eq_none_iff (n : Predicate) :
    (n.comparedProperty?.bind fun name =>
      if s.toLayer.hasAttribute name then none else some (Offence.unknownProperty name)) = none ↔
    ¬s.ComparesHidden n := by
  unfold ComparesHidden
  cases n.comparedProperty? with
  | none => simp
  | some name =>
      have hshows : s.toLayer.hasAttribute name = true ↔ s.Shows name := s.hasAttribute_iff name
      simp [hshows]

theorem foreignId?_eq_some_iff {part : String} {offence : Offence} :
    Predicate.foreignId? s.name part = some offence ↔
      s.IsForeign part ∧ offence = .foreignFeatureId part s.name := by
  unfold Predicate.foreignId?
  rw [Option.bind_eq_some_iff]
  constructor
  · rintro ⟨typeName, hname, h⟩
    obtain ⟨hsame, h⟩ := Option.ite_none_left_eq_some.1 h
    obtain ⟨rest, hpart, hrest⟩ := FeatureId.typeName?_eq_some_iff.1 hname
    exact ⟨⟨typeName, rest, hpart, hrest, hsame⟩, (Option.some.inj h).symm⟩
  · rintro ⟨⟨typeName, rest, hpart, hrest, hsame⟩, rfl⟩
    exact ⟨typeName, FeatureId.typeName?_eq_some_iff.2 ⟨rest, hpart, hrest⟩, if_neg hsame⟩

theorem foreignId?_eq_none_iff {part : String} :
    Predicate.foreignId? s.name part = none ↔ ¬s.IsForeign part := by
  rw [← Option.not_isSome_iff_eq_none, Option.isSome_iff_exists]
  simp [foreignId?_eq_some_iff]

theorem featureIdOffence?_eq_none_iff (n : Predicate) :
    (match n with
      | .featureIds tokens =>
          (FeatureId.parts tokens).findSome? (Predicate.foreignId? s.name)
      | _ => none) = none ↔ ¬s.ListsForeign n := by
  unfold ListsForeign
  cases n <;> simp [foreignId?_eq_none_iff]

theorem checkProperties_eq_ok_iff {p : Predicate} :
    p.checkProperties s.toLayer = .ok () ↔ ∀ n ∈ p.nodes, ¬s.ComparesHidden n :=
  Predicate.refuse_eq_ok_iff s.propertyOffence?_eq_none_iff

theorem checkProperties_eq_error_iff {p : Predicate} {offence : Offence} :
    p.checkProperties s.toLayer = .error offence ↔
      ∃ n name, p.IsFirst s.ComparesHidden n ∧ n.comparedProperty? = some name ∧
        offence = .unknownProperty name := by
  unfold Predicate.checkProperties
  rw [Predicate.refuse_eq_error_iff s.propertyOffence?_eq_none_iff]
  constructor
  · rintro ⟨n, hfirst, h⟩
    obtain ⟨name, hname, h⟩ := Option.bind_eq_some_iff.1 h
    exact ⟨n, name, hfirst, hname, (Option.some.inj (Option.ite_none_left_eq_some.1 h).2).symm⟩
  · rintro ⟨n, name, hfirst, hname, rfl⟩
    refine ⟨n, hfirst, ?_⟩
    -- The node offends with the one property that it compares.
    obtain ⟨-, -, -, -, name', hname', hshows⟩ := hfirst
    cases hname.symm.trans hname'
    rw [hname, Option.bind_some]
    exact if_neg fun h => hshows ((s.hasAttribute_iff name).1 h)

theorem checkFeatureIds_eq_ok_iff {p : Predicate} :
    p.checkFeatureIds s.name = .ok () ↔ ∀ n ∈ p.nodes, ¬s.ListsForeign n :=
  Predicate.refuse_eq_ok_iff s.featureIdOffence?_eq_none_iff

/-- The first node with a foreign part is named by the first of its foreign parts. -/
theorem checkFeatureIds_eq_error_iff {p : Predicate} {offence : Offence} :
    p.checkFeatureIds s.name = .error offence ↔
      ∃ tokens before part after, p.IsFirst s.ListsForeign (.featureIds tokens) ∧
        FeatureId.parts tokens = before ++ part :: after ∧ (∀ q ∈ before, ¬s.IsForeign q) ∧
          s.IsForeign part ∧ offence = .foreignFeatureId part s.name := by
  refine (Predicate.refuse_eq_error_iff s.featureIdOffence?_eq_none_iff).trans ?_
  constructor
  · rintro ⟨n, hfirst, h⟩
    split at h
    · next tokens =>
      obtain ⟨before, part, after, hparts, hpart, hbefore⟩ := List.findSome?_eq_some_iff.1 h
      obtain ⟨hforeign, rfl⟩ := s.foreignId?_eq_some_iff.1 hpart
      exact ⟨tokens, before, part, after, hfirst, hparts,
        fun q hq => s.foreignId?_eq_none_iff.1 (hbefore q hq), hforeign, rfl⟩
    · cases h
  · rintro ⟨tokens, before, part, after, hfirst, hparts, hbefore, hforeign, rfl⟩
    exact ⟨.featureIds tokens, hfirst, List.findSome?_eq_some_iff.2 ⟨before, part, after, hparts,
      s.foreignId?_eq_some_iff.2 ⟨hforeign, rfl⟩,
      fun q hq => s.foreignId?_eq_none_iff.2 (hbefore q hq)⟩⟩

end LayerSchema

/-! ## Comparisons under other names -/

namespace Predicate

/-- Whether a node, if it is a comparison, is one of a property. -/
def ComparesProperty : Predicate → Prop
  | comparison _ left _ _ => ∃ name, left = property name
  | _ => True

theorem nodes_rename (f : String → String) (p : Predicate) :
    (p.rename f).nodes = p.nodes.map (rename f) := by
  induction p <;> simp_all [rename, nodes]

theorem ComparesProperty.rename {n : Predicate} (h : n.ComparesProperty) (f : String → String) :
    (n.rename f).ComparesProperty := by
  cases n with
  | comparison op left right like =>
      obtain ⟨name, rfl⟩ := h
      exact ⟨f name, rfl⟩
  | _ => trivial

theorem comparesProperty_unqualified {p : Predicate} (h : ∀ n ∈ p.nodes, n.ComparesProperty) :
    ∀ n ∈ p.unqualified.nodes, n.ComparesProperty := by
  induction p with
  | unary op operand ih =>
      rw [nodes, List.forall_mem_cons] at h
      rw [unqualified, nodes, List.forall_mem_cons]
      exact ⟨trivial, ih h.2⟩
  | binary op left right ihl ihr =>
      rw [nodes, List.forall_mem_cons, List.forall_mem_append] at h
      rw [unqualified, nodes, List.forall_mem_cons, List.forall_mem_append]
      exact ⟨trivial, ihl h.2.1, ihr h.2.2⟩
  | comparison op left right like ihl ihr =>
      rw [unqualified]
      split
      · -- A comparison with a property that GML gives to every feature is left as it is.
        exact h
      · rw [nodes, List.forall_mem_cons, List.forall_mem_append] at h
        obtain ⟨⟨name, rfl⟩, hleft, hright⟩ := h
        rw [nodes, List.forall_mem_cons, List.forall_mem_append]
        exact ⟨⟨unqualifiedName name, rfl⟩, ihl hleft, ihr hright⟩
  | spatial op left right ihl ihr =>
      rw [nodes, List.forall_mem_cons, List.forall_mem_append] at h
      rw [unqualified, nodes, List.forall_mem_cons, List.forall_mem_append]
      exact ⟨trivial, ihl h.2.1, ihr h.2.2⟩
  | property name => exact List.forall_mem_singleton.2 trivial
  | _ => exact h

/-- Of a well-formed predicate, every comparison is one of a property. -/
theorem WellFormed.comparesProperty {p : Predicate} (h : p.WellFormed) :
    ∀ n ∈ p.nodes, n.ComparesProperty := by
  induction h with
  | negation _ ih =>
      rw [nodes, List.forall_mem_cons]
      exact ⟨trivial, ih⟩
  | junction _ _ _ ihl ihr =>
      rw [nodes, List.forall_mem_cons, List.forall_mem_append]
      exact ⟨trivial, ihl, ihr⟩
  | _ => simp [nodes, ComparesProperty]

/-- It still is one under the attribute names of a layer. -/
theorem comparesProperty_normalized {p : Predicate} (h : ∀ n ∈ p.nodes, n.ComparesProperty)
    (layer : Layer) : ∀ n ∈ (p.normalized layer).nodes, n.ComparesProperty := by
  unfold normalized
  rw [nodes_rename, List.forall_mem_map]
  exact fun n hn => (comparesProperty_unqualified h n hn).rename _

end Predicate

/-! ## Answers -/

namespace LayerSchema

variable (s : LayerSchema) (engine : Engine) (document : String)

/-- What a filter that passes every check satisfies, as it is written and under the attribute names
of the layer. -/
structure Admits (written : Predicate) : Prop where
  /-- No comparison is with the bounds of the feature. -/
  operands : ∀ op right like,
    .comparison op (.property "gml:boundedBy") right like ∉ written.nodes
  /-- Every comparison is with a visible attribute. -/
  properties : ∀ op left right like,
    .comparison op left right like ∈ (written.normalized s.toLayer).nodes →
      ∃ name, left = .property name ∧ s.Shows name
  /-- Every type name in front of an id is the layer's. -/
  ids : ∀ tokens, .featureIds tokens ∈ (written.normalized s.toLayer).nodes →
    ∀ part ∈ FeatureId.parts tokens, ∀ typeName rest : String,
      part = typeName ++ "." ++ rest → '.' ∉ rest.toList → Text.same typeName s.name = true

/-- What a request for a layer is answered with.  Of the checks, the first that the filter does not
pass decides, and of the nodes the first that offends. -/
inductive Answers : Except Rejection Plan → Prop
  /-- The document is not read. -/
  | unreadable {e : DocumentError} (hread : Predicate.ofDocument document = .error e) :
      Answers (.error (.document e))
  | invalidOperand {written n : Predicate} (hread : Predicate.ofDocument document = .ok written)
      (hfirst : written.IsFirst Predicate.ComparesBounds n) :
      Answers (.error (.offence (.invalidOperand "gml:boundedBy")))
  | unknownProperty {written n : Predicate} {name : String}
      (hread : Predicate.ofDocument document = .ok written)
      (hoperands : ∀ n ∈ written.nodes, ¬n.ComparesBounds)
      (hfirst : (written.normalized s.toLayer).IsFirst s.ComparesHidden n)
      (hname : n.comparedProperty? = some name) :
      Answers (.error (.offence (.unknownProperty name)))
  /-- The first part with the type name of another layer is reported. -/
  | foreignFeatureId {written : Predicate} {tokens before after : List String} {part : String}
      (hread : Predicate.ofDocument document = .ok written)
      (hoperands : ∀ n ∈ written.nodes, ¬n.ComparesBounds)
      (hproperties : ∀ n ∈ (written.normalized s.toLayer).nodes, ¬s.ComparesHidden n)
      (hfirst : (written.normalized s.toLayer).IsFirst s.ListsForeign (.featureIds tokens))
      (hparts : FeatureId.parts tokens = before ++ part :: after)
      (hbefore : ∀ q ∈ before, ¬s.IsForeign q) (hpart : s.IsForeign part) :
      Answers (.error (.offence (.foreignFeatureId part s.name)))
  | unsafeEscape {written : Predicate} {e : UnsafeEscape}
      (hread : Predicate.ofDocument document = .ok written) (hadmits : s.Admits written)
      (hplan : s.toLayer.plan engine (written.normalized s.toLayer) = .error e) :
      Answers (.error (.unsafeEscape e))
  | planned {written : Predicate} {plan : Plan}
      (hread : Predicate.ofDocument document = .ok written) (hadmits : s.Admits written)
      (hplan : s.toLayer.plan engine (written.normalized s.toLayer) = .ok plan) :
      Answers (.ok plan)

/-- A filter of a document is admitted if no node of it offends. -/
theorem admits_iff {written : Predicate} (hwritten : written.WellFormed) :
    s.Admits written ↔ (∀ n ∈ written.nodes, ¬n.ComparesBounds) ∧
      (∀ n ∈ (written.normalized s.toLayer).nodes, ¬s.ComparesHidden n) ∧
        ∀ n ∈ (written.normalized s.toLayer).nodes, ¬s.ListsForeign n := by
  constructor
  · intro h
    refine ⟨fun n hn hbounds => ?_, fun n hn hhidden => ?_, fun n hn hforeign => ?_⟩
    · obtain ⟨op, right, like, rfl⟩ := Predicate.exists_of_comparedProperty? hbounds
      exact h.operands op right like hn
    · obtain ⟨name, hname, hshows⟩ := hhidden
      obtain ⟨op, right, like, rfl⟩ := Predicate.exists_of_comparedProperty? hname
      obtain ⟨name', heq, hshows'⟩ := h.properties op _ right like hn
      cases heq
      exact hshows hshows'
    · obtain ⟨tokens, rfl, part, hpart, typeName, rest, hsplit, hrest, hsame⟩ := hforeign
      exact hsame (h.ids tokens hn part hpart typeName rest hsplit hrest)
  · rintro ⟨hoperands, hproperties, hids⟩
    refine ⟨fun op right like hn => hoperands _ hn rfl, fun op left right like hn => ?_,
      fun tokens hn part hpart typeName rest hsplit hrest => ?_⟩
    · obtain ⟨name, rfl⟩ :=
        Predicate.comparesProperty_normalized hwritten.comparesProperty s.toLayer _ hn
      refine ⟨name, rfl, ?_⟩
      by_contra hshows
      exact hproperties _ hn ⟨name, rfl, hshows⟩
    · by_contra hsame
      exact hids _ hn ⟨tokens, rfl, part, hpart, typeName, rest, hsplit, hrest, hsame⟩

variable {document} in
/-- The plan for a filter that is admitted. -/
theorem apply_of_admits {written : Predicate} (hread : Predicate.ofDocument document = .ok written)
    (hadmits : s.Admits written) : s.toLayer.apply engine document =
      (s.toLayer.plan engine (written.normalized s.toLayer)).mapError .unsafeEscape := by
  obtain ⟨_, _, -, -, hfilter⟩ := Predicate.exists_filter_of_ofDocument hread
  obtain ⟨hoperands, hproperties, hids⟩ :=
    (s.admits_iff (Predicate.wellFormed_of_ofFilter hfilter)).1 hadmits
  unfold Layer.apply
  rw [hread]
  dsimp only [Except.mapError, bind, Except.bind]
  rw [Predicate.checkOperands_eq_ok_iff.2 hoperands, s.checkProperties_eq_ok_iff.2 hproperties,
    show s.toLayer.name = s.name from rfl, s.checkFeatureIds_eq_ok_iff.2 hids]

/-- A layer answers with each of the cases that applies. -/
theorem apply_eq_of_answers {answer : Except Rejection Plan}
    (h : s.Answers engine document answer) : s.toLayer.apply engine document = answer := by
  cases h with
  | unreadable hread =>
      rw [Layer.apply, hread]
      rfl
  | invalidOperand hread hfirst =>
      rw [Layer.apply, hread]
      dsimp only [Except.mapError, bind, Except.bind]
      rw [Predicate.checkOperands_eq_error_iff.2 ⟨_, hfirst, rfl⟩]
  | unknownProperty hread hoperands hfirst hname =>
      rw [Layer.apply, hread]
      dsimp only [Except.mapError, bind, Except.bind]
      rw [Predicate.checkOperands_eq_ok_iff.2 hoperands,
        s.checkProperties_eq_error_iff.2 ⟨_, _, hfirst, hname, rfl⟩]
  | foreignFeatureId hread hoperands hproperties hfirst hparts hbefore hpart =>
      rw [Layer.apply, hread]
      dsimp only [Except.mapError, bind, Except.bind]
      rw [Predicate.checkOperands_eq_ok_iff.2 hoperands,
        s.checkProperties_eq_ok_iff.2 hproperties]
      dsimp only
      rw [show s.toLayer.name = s.name from rfl, s.checkFeatureIds_eq_error_iff.2
        ⟨_, _, _, _, hfirst, hparts, hbefore, hpart, rfl⟩]
  | unsafeEscape hread hadmits hplan =>
      rw [s.apply_of_admits engine hread hadmits, hplan]
      rfl
  | planned hread hadmits hplan =>
      rw [s.apply_of_admits engine hread hadmits, hplan]
      rfl

/-- One of the cases applies to what a layer answers. -/
theorem answers_apply : s.Answers engine document (s.toLayer.apply engine document) := by
  unfold Layer.apply
  dsimp only [bind, Except.bind]
  rcases hread : Predicate.ofDocument document with e | written
  · exact .unreadable hread
  dsimp only [Except.mapError]
  rcases hoperands : written.checkOperands with offence | ⟨⟩
  · obtain ⟨n, hfirst, rfl⟩ := Predicate.checkOperands_eq_error_iff.1 hoperands
    exact .invalidOperand hread hfirst
  have hoperands := Predicate.checkOperands_eq_ok_iff.1 hoperands
  dsimp only
  rcases hproperties : (written.normalized s.toLayer).checkProperties s.toLayer with offence | ⟨⟩
  · obtain ⟨n, name, hfirst, hname, rfl⟩ := s.checkProperties_eq_error_iff.1 hproperties
    exact .unknownProperty hread hoperands hfirst hname
  have hproperties := s.checkProperties_eq_ok_iff.1 hproperties
  dsimp only
  rcases hids : (written.normalized s.toLayer).checkFeatureIds s.toLayer.name with offence | ⟨⟩
  · obtain ⟨tokens, before, part, after, hfirst, hparts, hbefore, hpart, rfl⟩ :=
      s.checkFeatureIds_eq_error_iff.1 hids
    exact .foreignFeatureId hread hoperands hproperties hfirst hparts hbefore hpart
  have hids := s.checkFeatureIds_eq_ok_iff.1 hids
  obtain ⟨_, _, -, -, hfilter⟩ := Predicate.exists_filter_of_ofDocument hread
  -- What is read is well formed, so that the three checks are all that admission asks for.
  have hadmits : s.Admits written :=
    (s.admits_iff (Predicate.wellFormed_of_ofFilter hfilter)).2 ⟨hoperands, hproperties, hids⟩
  dsimp only
  rcases hplan : s.toLayer.plan engine (written.normalized s.toLayer) with e | plan
  · exact .unsafeEscape hread hadmits hplan
  · exact .planned hread hadmits hplan

/-- A layer answers every request as the checks say, and in no other way. -/
theorem apply_eq_iff {answer : Except Rejection Plan} :
    s.toLayer.apply engine document = answer ↔ s.Answers engine document answer := by
  constructor
  · rintro rfl
    exact s.answers_apply engine document
  · exact s.apply_eq_of_answers engine document

end LayerSchema

end FilterEncoding
