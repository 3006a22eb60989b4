import FilterEncoding.Predicate.Boxes
import FilterEncoding.Predicate.Checks
import FilterEncoding.Predicate.Document
import FilterEncoding.Predicate.Names

/-!
# What renaming leaves as it is

Under the attribute names of a layer a predicate keeps its form.  The names of its properties
change and nothing else does, so that everything that is asked of a predicate without regard to
these names has the same answer.

* `Predicate.SameButNames` — predicates that differ in the names of properties alone.
* `Predicate.SameButNames.sameAnswers` — they have the same element names, boxes, undefined nodes
  and foreign feature ids.
* `Predicate.normalized_sameButNames` — a predicate and the one with the names of a layer.
-/

namespace FilterEncoding.Predicate

open FilterEncoding.Geometry (Rectangle Shape)

/-- Predicates of one form with the same data at the same places.  Only the names of properties may
differ. -/
inductive SameButNames : Predicate → Predicate → Prop
  | property (name name' : String) : SameButNames (property name) (property name')
  | unary (op : Connective) {operand operand' : Predicate}
      (hoperand : SameButNames operand operand') :
      SameButNames (unary op operand) (unary op operand')
  | binary (op : Connective) {left left' right right' : Predicate}
      (hleft : SameButNames left left') (hright : SameButNames right right') :
      SameButNames (binary op left right) (binary op left' right')
  | comparison (op : ComparisonOperator) {left left' right right' : Predicate}
      (like : Option LikeOptions) (hleft : SameButNames left left')
      (hright : SameButNames right right') :
      SameButNames (comparison op left right like) (comparison op left' right' like)
  | spatial (op : SpatialOperator) {left left' right right' : Predicate}
      (hleft : SameButNames left left') (hright : SameButNames right right') :
      SameButNames (spatial op left right) (spatial op left' right')
  | literal (value : Option String) (ignoreCase : Bool) :
      SameButNames (literal value ignoreCase) (literal value ignoreCase)
  | bounds (lower upper : String) : SameButNames (bounds lower upper) (bounds lower upper)
  | box (rectangle : Rectangle) (crs : Option String) :
      SameButNames (box rectangle crs) (box rectangle crs)
  | geometry (shape : Shape) (crs : Option String) (distance : Option Distance) :
      SameButNames (geometry shape crs distance) (geometry shape crs distance)
  | featureIds (tokens : List String) : SameButNames (featureIds tokens) (featureIds tokens)
  | undefined (element : String) : SameButNames (undefined element) (undefined element)

/-- Predicates with the same answers to all that is asked without regard to the names of
properties. -/
structure SameAnswers (p q : Predicate) : Prop where
  count_eq : ∀ name, p.count name = q.count name
  isBoxLiftable_eq : p.isBoxLiftable = q.isBoxLiftable
  isSimple_eq : p.isSimple = q.isSimple
  hasSpatial_eq : p.hasSpatial = q.hasSpatial
  /-- Both are valid, or both are invalid for the same element. -/
  validated_eq : p.validated.map (fun _ => ()) = q.validated.map fun _ => ()
  topBox?_eq : p.topBox? = q.topBox?
  firstBox?_eq : p.firstBox? = q.firstBox?
  checkFeatureIds_eq : ∀ layerName, p.checkFeatureIds layerName = q.checkFeatureIds layerName

namespace SameButNames

/-! ## Nodes -/

section Nodes

variable {α : Type} {f : Predicate → α} (hf : ∀ {a b : Predicate}, SameButNames a b → f a = f b)
  {p q : Predicate}
include hf

/-- What is the same for corresponding nodes is the same along all nodes. -/
theorem map_nodes (h : SameButNames p q) : p.nodes.map f = q.nodes.map f := by
  induction h with
  | unary op hoperand ih =>
      rw [nodes, nodes, List.map_cons, List.map_cons, hf (.unary op hoperand), ih]
  | binary op hleft hright ihl ihr =>
      rw [nodes, nodes, List.map_cons, List.map_cons, List.map_append, List.map_append,
        hf (.binary op hleft hright), ihl, ihr]
  | comparison op like hleft hright ihl ihr =>
      rw [nodes, nodes, List.map_cons, List.map_cons, List.map_append, List.map_append,
        hf (.comparison op like hleft hright), ihl, ihr]
  | spatial op hleft hright ihl ihr =>
      rw [nodes, nodes, List.map_cons, List.map_cons, List.map_append, List.map_append,
        hf (.spatial op hleft hright), ihl, ihr]
  | property name name' => exact congrArg (fun a => [a]) (hf (.property name name'))
  | _ => rfl

/-- It is the same along the boxes among the conjuncts. -/
theorem map_conjunctBoxes (h : SameButNames p q) :
    p.conjunctBoxes.map f = q.conjunctBoxes.map f := by
  induction h with
  | binary op hleft hright ihl ihr =>
      cases op with
      | and => rw [conjunctBoxes, conjunctBoxes, List.map_append, List.map_append, ihl, ihr]
      | _ => rfl
  | spatial op hleft hright ihl ihr =>
      cases op with
      | bbox => exact congrArg (fun a => [a]) (hf (.spatial .bbox hleft hright))
      | _ => rfl
  | _ => rfl

end Nodes

theorem findSome?_nodes {α : Type} {f : Predicate → Option α}
    (hf : ∀ {a b : Predicate}, SameButNames a b → f a = f b) {p q : Predicate}
    (h : SameButNames p q) : p.nodes.findSome? f = q.nodes.findSome? f := by
  have hmap : ∀ r : Predicate, r.nodes.findSome? f = (r.nodes.map f).findSome? id := by
    intro r
    rw [List.findSome?_map]
    rfl
  rw [hmap, hmap, map_nodes hf h]

variable {p q : Predicate} (h : SameButNames p q)
include h

theorem tag_eq : p.tag = q.tag := by
  cases h <;> rfl

theorem boxParts?_eq : p.boxParts? = q.boxParts? := by
  cases h with
  | spatial op hleft hright =>
      cases op with
      | bbox => cases hright <;> rfl
      | _ => rfl
  | _ => rfl

theorem spatialKind?_eq : p.spatialKind? = q.spatialKind? := by
  cases h with
  | spatial op hleft hright => cases hright <;> rfl
  | _ => rfl

/-! ## Answers -/

theorem count_eq (name : String) : p.count name = q.count name := by
  have hcount : ∀ r : Predicate,
      r.count name = (r.nodes.map tag).countP fun element => Text.same element name := by
    intro r
    rw [List.countP_map]
    rfl
  rw [hcount, hcount, map_nodes tag_eq h]

theorem isBoxLiftable_eq : p.isBoxLiftable = q.isBoxLiftable := by
  induction h with
  | binary op hleft hright ihl ihr =>
      have hcount := (binary op hleft hright).count_eq "BBOX"
      cases op with
      | and => rw [isBoxLiftable, isBoxLiftable, hcount, ihl, ihr]
      | _ => exact congrArg (· == 0) hcount
  | spatial op hleft hright _ _ =>
      rw [isBoxLiftable, isBoxLiftable, (spatial op hleft hright).count_eq]
  | unary op hoperand _ => exact congrArg (· == 0) ((unary op hoperand).count_eq "BBOX")
  | comparison op like hleft hright _ _ =>
      exact congrArg (· == 0) ((comparison op like hleft hright).count_eq "BBOX")
  | _ => rfl

theorem isSimple_eq : p.isSimple = q.isSimple := by
  have hcount : ∀ op : SpatialOperator, p.count op.tag = q.count op.tag := fun op => h.count_eq _
  simp only [isSimple, h.isBoxLiftable_eq, hcount]

theorem hasSpatial_eq : p.hasSpatial = q.hasSpatial := by
  induction h with
  | unary op _ ih => rw [hasSpatial, hasSpatial, ih]
  | binary op _ _ ihl ihr => rw [hasSpatial, hasSpatial, ihl, ihr]
  | spatial op hleft hright _ _ =>
      rw [hasSpatial, hasSpatial, (spatial op hleft hright).spatialKind?_eq]
      cases op <;> rfl
  | _ => rfl

theorem validated_eq : p.validated.map (fun _ => ()) = q.validated.map fun _ => () := by
  have hfirst : p.firstUndefined? = q.firstUndefined? :=
    findSome?_nodes (fun hnode => by cases hnode <;> rfl) h
  unfold validated
  rw [hfirst]
  cases q.firstUndefined? <;> rfl

theorem topBox?_eq : p.topBox? = q.topBox? := by
  have hboxes := map_conjunctBoxes boxParts?_eq h
  unfold topBox? topBoxNode?
  generalize p.conjunctBoxes = boxes at hboxes ⊢
  generalize q.conjunctBoxes = boxes' at hboxes ⊢
  -- The lists are of one length, and only lists of one box count.
  rcases boxes with _ | ⟨b, _ | ⟨c, boxes⟩⟩ <;> rcases boxes' with _ | ⟨b', _ | ⟨c', boxes'⟩⟩ <;>
    simp only [List.map_cons, List.map_nil, List.cons.injEq, reduceCtorEq, and_false, and_true]
      at hboxes
  case nil.nil => rfl
  case cons.nil.cons.nil =>
    dsimp only
    rw [hboxes]
    cases hparts : b'.boxParts? with
    | none => rfl
    | some parts =>
        rw [Option.isSome_some, if_pos rfl, if_pos rfl, Option.bind_some, Option.bind_some, hboxes,
          hparts]
  case cons.cons.cons.cons => rfl

theorem firstBox?_eq : p.firstBox? = q.firstBox? :=
  findSome?_nodes boxParts?_eq h

theorem checkFeatureIds_eq (layerName : String) :
    p.checkFeatureIds layerName = q.checkFeatureIds layerName := by
  unfold checkFeatureIds refuse
  rw [findSome?_nodes (fun hnode => by cases hnode <;> rfl) h]

theorem sameAnswers : SameAnswers p q where
  count_eq := h.count_eq
  isBoxLiftable_eq := h.isBoxLiftable_eq
  isSimple_eq := h.isSimple_eq
  hasSpatial_eq := h.hasSpatial_eq
  validated_eq := h.validated_eq
  topBox?_eq := h.topBox?_eq
  firstBox?_eq := h.firstBox?_eq
  checkFeatureIds_eq := h.checkFeatureIds_eq

end SameButNames

/-! ## Renaming -/

theorem sameButNames_rename (f : String → String) (p : Predicate) :
    SameButNames p (p.rename f) := by
  induction p with
  | unary op _ ih => exact .unary op ih
  | binary op _ _ ihl ihr => exact .binary op ihl ihr
  | comparison op _ _ like ihl ihr => exact .comparison op like ihl ihr
  | spatial op _ _ ihl ihr => exact .spatial op ihl ihr
  | property name => exact .property name (f name)
  | _ => constructor

/-- Whether or not a comparison keeps its prefixes, its properties are renamed. -/
theorem sameButNames_rename_unqualified (f : String → String) (p : Predicate) :
    SameButNames p (p.unqualified.rename f) := by
  induction p with
  | unary op _ ih => exact .unary op ih
  | binary op _ _ ihl ihr => exact .binary op ihl ihr
  | comparison op _ _ like ihl ihr =>
      rw [unqualified]
      split
      · exact sameButNames_rename f _
      · exact .comparison op like ihl ihr
  | spatial op _ _ ihl ihr => exact .spatial op ihl ihr
  | property name => exact .property name (f (unqualifiedName name))
  | _ => exact sameButNames_rename f _

/-- Under the attribute names of a layer, a predicate differs in the names of its properties alone
and gives the same answers. -/
theorem normalized_sameButNames (layer : Layer) (p : Predicate) :
    SameButNames p (p.normalized layer) ∧ SameAnswers p (p.normalized layer) := by
  have h : SameButNames p (p.normalized layer) :=
    sameButNames_rename_unqualified (attributeName layer) p
  exact ⟨h, h.sameAnswers⟩

end FilterEncoding.Predicate
