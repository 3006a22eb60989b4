import FilterEncoding.Proofs.Plan.TopBox
import FilterEncoding.Proofs.Predicate.WellFormed

/-!
# Classes of predicates

Whether the bounding box of a predicate can be lifted out, whether a predicate is simple, and
whether it is spatial at all is decided in different ways: by counting element names, by walking
through conjunctions, and by the kinds of the shapes that are compared with.

* `Predicate.isBoxLiftable_iff` — counting names and walking through conjunctions agree.
* `Predicate.topBox?_eq_firstBox?` — the only bounding box is the first one, wherever it is looked
  for.
* `Predicate.IsBuilt` — the induction over all predicates that filter elements give.
* `Predicate.isSimple_iff`, `Predicate.isBuilt_hasSpatial` — what the names and kinds say about the
  spatial nodes of a predicate that is read from a document.
-/

namespace FilterEncoding.Predicate

open FilterEncoding.Geometry (Shape)
open FilterEncoding.Xml (Node)

/-- Whether a node is a spatial predicate. -/
def isSpatial : Predicate → Bool
  | spatial _ _ _ => true
  | _ => false

/-- A conjunct of a predicate: a node reached from the root through conjunctions alone. -/
inductive IsConjunct (q : Predicate) : Predicate → Prop
  | self : IsConjunct q q
  | left {left right : Predicate} (h : IsConjunct q left) : IsConjunct q (binary .and left right)
  | right {left right : Predicate} (h : IsConjunct q right) : IsConjunct q (binary .and left right)

/-! ## Bounding boxes among the conjuncts and among all nodes -/

theorem mem_conjunctBoxes_iff {p box : Predicate} :
    box ∈ p.conjunctBoxes ↔ box.isBox = true ∧ IsConjunct box p := by
  constructor
  · intro h
    refine ⟨isBox_of_mem_conjunctBoxes h, ?_⟩
    fun_induction conjunctBoxes p with
    | case1 left right =>
        cases List.mem_singleton.1 h
        exact .self
    | case2 left right ihLeft ihRight =>
        rcases List.mem_append.1 h with hleft | hright
        · exact .left (ihLeft hleft)
        · exact .right (ihRight hright)
    | case3 p _ _ => cases h
  · rintro ⟨hbox, h⟩
    induction h with
    | self =>
        rw [conjunctBoxes_of_isBox hbox]
        exact List.mem_singleton_self box
    | left _ ih => exact List.mem_append_left _ ih
    | right _ ih => exact List.mem_append_right _ ih

/-- The boxes among the conjuncts are boxes among all nodes, in the same order. -/
theorem conjunctBoxes_sublist (p : Predicate) :
    p.conjunctBoxes.Sublist (p.nodes.filter isBox) := by
  fun_induction conjunctBoxes p with
  | case1 left right =>
      rw [nodes, List.filter_cons_of_pos rfl]
      exact (List.nil_sublist _).cons_cons _
  | case2 left right ihLeft ihRight =>
      rw [nodes, List.filter_cons_of_neg Bool.false_ne_true, List.filter_append]
      exact ihLeft.append ihRight
  | case3 p _ _ => exact List.nil_sublist _

/-- Every box counts as one by its name. -/
theorem length_filter_isBox_le (p : Predicate) :
    (p.nodes.filter isBox).length ≤ p.count "BBOX" := by
  rw [← List.countP_eq_length_filter, count]
  refine List.countP_mono_left fun n _ hn => ?_
  cases n with
  | spatial op left right =>
      cases op with
      | bbox => exact Text.same_refl _
      | _ => cases hn
  | _ => cases hn

theorem length_conjunctBoxes_le (p : Predicate) : p.conjunctBoxes.length ≤ p.count "BBOX" :=
  (conjunctBoxes_sublist p).length_le.trans p.length_filter_isBox_le

theorem count_bbox_binary (op : Connective) (left right : Predicate) :
    (binary op left right).count "BBOX" = left.count "BBOX" + right.count "BBOX" := by
  have hkeyword : Text.same op.keyword "BBOX" = false := by cases op <;> decide
  simp [count, nodes, tag, hkeyword]

theorem length_conjunctBoxes_spatial (op : SpatialOperator) (left right : Predicate) :
    (spatial op left right).conjunctBoxes.length = 1 ↔ op = .bbox := by
  cases op <;> simp [conjunctBoxes]

/-- A box can be lifted out if there is none by name, or one by name that is a conjunct. -/
theorem isBoxLiftable_iff (p : Predicate) :
    p.isBoxLiftable = true ↔
      p.count "BBOX" = 0 ∨ (p.count "BBOX" = 1 ∧ p.conjunctBoxes.length = 1) := by
  fun_induction isBoxLiftable p with
  | case1 op left right hcount => simp [hcount]
  | case2 op left right hcount => simp [hcount, length_conjunctBoxes_spatial]
  | case3 op left right hnone hone =>
      simp only [Bool.false_eq_true, false_iff, not_or, not_and]
      exact ⟨hnone, fun h => absurd h hone⟩
  | case4 left right hcount => simp [hcount]
  | case5 left right hcount ihLeft ihRight =>
      -- One operand has the name once and the other not at all.
      have hleft := left.length_conjunctBoxes_le
      have hright := right.length_conjunctBoxes_le
      rw [count_bbox_binary] at hcount ⊢
      rw [Bool.and_eq_true, ihLeft, ihRight, conjunctBoxes, List.length_append]
      omega
  | case6 left right hnone hone =>
      simp only [Bool.false_eq_true, false_iff, not_or, not_and]
      exact ⟨hnone, fun h => absurd h hone⟩
  | case7 p hspatial hand =>
      rw [conjunctBoxes.eq_3 p (fun left right => hspatial .bbox left right) hand]
      simp

/-- If every box has a rectangle, a single box among the conjuncts is the top bounding box. -/
theorem isSome_topBoxNode?_iff {p : Predicate}
    (hboxes : ∀ q ∈ p.nodes, q.isBox = true → q.boxParts?.isSome = true) :
    p.topBoxNode?.isSome = true ↔ p.conjunctBoxes.length = 1 := by
  rw [Option.isSome_iff_exists, List.length_eq_one_iff]
  refine exists_congr fun box => topBoxNode?_eq_some_iff.trans (and_iff_left_of_imp fun h => ?_)
  have hmem : box ∈ p.nodes.filter isBox :=
    p.conjunctBoxes_sublist.subset (h ▸ List.mem_singleton_self box)
  exact hboxes box (List.mem_filter.1 hmem).1 (List.mem_filter.1 hmem).2

/-- Only a box has the parts of one. -/
theorem boxParts?_of_isBox (n : Predicate) :
    (if n.isBox = true then n.boxParts? else none) = n.boxParts? := by
  cases n with
  | spatial op left right => cases op <;> rfl
  | _ => rfl

/-- The box that is a conjunct is the first box, if no other node has the name of one. -/
theorem topBox?_eq_firstBox? {p : Predicate} (hcount : p.count "BBOX" = 1)
    (htop : p.topBoxNode?.isSome = true) : p.topBox? = p.firstBox? := by
  obtain ⟨box, hbox⟩ := Option.isSome_iff_exists.1 htop
  have hconjuncts := (topBoxNode?_eq_some_iff.1 hbox).1
  have hnodes : p.nodes.filter isBox = [box] := by
    refine ((hconjuncts ▸ p.conjunctBoxes_sublist).eq_of_length_le ?_).symm
    exact p.length_filter_isBox_le.trans hcount.le
  -- Only boxes have the parts of one, so that the search may be confined to them.
  have hsearch : p.firstBox? = (p.nodes.filter isBox).findSome? boxParts? := by
    have hconfined : (fun n : Predicate => if n.isBox = true then n.boxParts? else none) =
        boxParts? := funext boxParts?_of_isBox
    rw [firstBox?, ← List.head?_filterMap, ← List.head?_filterMap, List.filterMap_filter, hconfined]
  rw [topBox?, hbox, hsearch, hnodes, Option.bind_some, List.findSome?_singleton]

/-! ## Predicates without undefined nodes -/

theorem same_tag_tag_iff (a b : SpatialOperator) : Text.same a.tag b.tag = true ↔ a = b := by
  cases a <;> cases b <;> decide

theorem same_keyword_tag (o : Connective) (op : SpatialOperator) :
    Text.same o.keyword op.tag = false := by
  cases o <;> cases op <;> decide

theorem same_comparison_tag (o : ComparisonOperator) (op : SpatialOperator) :
    Text.same o.tag op.tag = false := by
  cases o with
  | relation r => cases r <;> cases op <;> decide
  | _ => cases op <;> decide

theorem same_operand_tag {name : String}
    (h : name ∈ ["PropertyName", "Literal", "Boundary", "Box", "Geometry", "FeatureId"])
    (op : SpatialOperator) : Text.same name op.tag = false := by
  revert name
  cases op <;> decide

/-- Among the nodes that are not undefined, the name of a spatial operator is that of its spatial
predicates alone. -/
theorem same_tag_iff {q : Predicate} (hq : ∀ element, q ≠ undefined element)
    (op : SpatialOperator) :
    Text.same q.tag op.tag = true ↔ ∃ left right, q = spatial op left right := by
  have otherName : Text.same q.tag op.tag = false → (∀ left right, q ≠ spatial op left right) →
      (Text.same q.tag op.tag = true ↔ ∃ left right, q = spatial op left right) := by
    intro hname hne
    rw [hname]
    exact iff_of_false Bool.false_ne_true fun ⟨left, right, h⟩ => hne left right h
  cases q with
  | spatial o left right =>
      rw [tag, same_tag_tag_iff]
      constructor
      · rintro rfl
        exact ⟨left, right, rfl⟩
      · rintro ⟨_, _, h⟩
        cases h
        rfl
  | undefined element => exact absurd rfl (hq element)
  | unary o _ => exact otherName (same_keyword_tag o op) fun _ _ h => by cases h
  | binary o _ _ => exact otherName (same_keyword_tag o op) fun _ _ h => by cases h
  | comparison o _ _ _ => exact otherName (same_comparison_tag o op) fun _ _ h => by cases h
  | _ => exact otherName (same_operand_tag (by simp [tag]) op) fun _ _ h => by cases h

theorem mem_all (op : SpatialOperator) : op ∈ SpatialOperator.all := by
  cases op <;> decide

theorem IsDefined.ne_undefined {p q : Predicate} (hp : p.IsDefined) (hq : q ∈ p.nodes)
    (element : String) : q ≠ undefined element :=
  fun h => hp element (h ▸ hq)

theorem isBox_iff {q : Predicate} :
    q.isBox = true ↔ ∃ left right, q = spatial .bbox left right := by
  constructor
  · intro h
    cases q with
    | spatial op left right =>
        cases op with
        | bbox => exact ⟨left, right, rfl⟩
        | _ => cases h
    | _ => cases h
  · rintro ⟨left, right, rfl⟩
    rfl

theorem isSpatial_of_isBox {q : Predicate} (h : q.isBox = true) : q.isSpatial = true := by
  obtain ⟨left, right, rfl⟩ := isBox_iff.1 h
  rfl

theorem filter_isSpatial_eq {ns : List Predicate}
    (h : ∀ q ∈ ns, q.isSpatial = true → q.isBox = true) : ns.filter isSpatial = ns.filter isBox :=
  List.filter_congr fun q hq => Bool.eq_iff_iff.2 ⟨h q hq, isSpatial_of_isBox⟩

/-- No node has the name of a spatial operator other than that of boxes exactly if every spatial
node is a box. -/
theorem all_count_eq_zero_iff {p : Predicate} (hp : p.IsDefined) :
    ((SpatialOperator.all.filter (· != .bbox)).all fun op => p.count op.tag == 0) = true ↔
      ∀ q ∈ p.nodes, q.isSpatial = true → q.isBox = true := by
  simp only [List.all_eq_true, List.mem_filter, mem_all, true_and, bne_iff_ne, beq_iff_eq, count,
    List.countP_eq_zero]
  constructor
  · intro h q hq hspatial
    cases q with
    | spatial op left right =>
        by_contra hbox
        have hop : op ≠ .bbox := fun h => hbox (h ▸ rfl)
        exact h op hop _ hq (Text.same_refl _)
    | _ => cases hspatial
  · intro h op hop q hq hname
    obtain ⟨left, right, rfl⟩ := (same_tag_iff (hp.ne_undefined hq) op).1 hname
    have hbox := h _ hq rfl
    cases op with
    | bbox => exact hop rfl
    | _ => cases hbox

theorem count_bbox_eq_length {p : Predicate} (hp : p.IsDefined) :
    p.count "BBOX" = (p.nodes.filter isBox).length := by
  rw [← List.countP_eq_length_filter, count]
  refine List.countP_congr fun q hq => ?_
  rw [isBox_iff]
  exact same_tag_iff (hp.ne_undefined hq) .bbox

/-- A predicate without undefined nodes is simple if its only spatial node, if it has one, is a box
that is a conjunct. -/
theorem isSimple_iff {p : Predicate} (hp : p.IsDefined) :
    p.isSimple = true ↔
      (∀ q ∈ p.nodes, q.isSpatial = true → q.isBox = true ∧ IsConjunct q p) ∧
        p.nodes.countP isSpatial ≤ 1 := by
  rw [isSimple, Bool.and_eq_true, isBoxLiftable_iff, all_count_eq_zero_iff hp,
    count_bbox_eq_length hp, List.countP_eq_length_filter]
  constructor
  · rintro ⟨hlift, hboxes⟩
    rw [filter_isSpatial_eq hboxes]
    refine ⟨fun q hq hspatial => ⟨hboxes q hq hspatial, ?_⟩, by omega⟩
    have hmem : q ∈ p.nodes.filter isBox := List.mem_filter.2 ⟨hq, hboxes q hq hspatial⟩
    have hpos := List.length_pos_of_mem hmem
    -- There is a box, so that the only one among all nodes is the one among the conjuncts.
    have hconjuncts := p.conjunctBoxes_sublist.eq_of_length_le (by omega)
    exact (mem_conjunctBoxes_iff.1 (hconjuncts ▸ hmem)).2
  · rintro ⟨hall, hone⟩
    have hboxes : ∀ q ∈ p.nodes, q.isSpatial = true → q.isBox = true :=
      fun q hq hspatial => (hall q hq hspatial).1
    rw [filter_isSpatial_eq hboxes] at hone
    refine ⟨?_, hboxes⟩
    rcases Nat.eq_zero_or_pos (p.nodes.filter isBox).length with hnone | hpos
    · exact .inl hnone
    · obtain ⟨box, hbox⟩ := List.exists_mem_of_length_pos hpos
      rw [List.mem_filter] at hbox
      have hconjunct := (hall box hbox.1 (isSpatial_of_isBox hbox.2)).2
      have hconjuncts := List.length_pos_of_mem (mem_conjunctBoxes_iff.2 ⟨hbox.2, hconjunct⟩)
      have hle := p.conjunctBoxes_sublist.length_le
      exact .inr ⟨by omega, by omega⟩

/-! ## Predicates of elements -/

/-- What is read from a document is read from its filter element and has no undefined node. -/
theorem exists_ofFilter_of_ofDocument {text : String} {p : Predicate}
    (h : ofDocument text = .ok p) : ∃ filter, ofFilter filter = .ok p ∧ p.IsDefined := by
  obtain ⟨root, filter, -, -, hfilter⟩ := exists_filter_of_ofDocument h
  obtain ⟨q, hq, hvalid⟩ := exists_of_bind_eq_ok hfilter
  obtain ⟨rfl, hdefined⟩ := validated_eq_ok_iff.1 hvalid
  exact ⟨filter, hq, hdefined⟩

/-- A property of all predicates that filter elements give: of those without operands, and of a
connective if its operands have it. -/
structure IsBuilt (P : Predicate → Prop) : Prop where
  undefined : ∀ element, P (undefined element)
  featureIds : ∀ tokens, P (featureIds tokens)
  comparison : ∀ {op n p}, comparisonOf? op n = some p → P p
  spatial : ∀ {op n p}, spatialOf? op n = some p → P p
  negation : ∀ {operand}, P operand → P (unary .not operand)
  junction : ∀ {op left right}, P left → P right → P (binary op left right)

namespace IsBuilt

variable {P : Predicate → Prop}

theorem of_featureIds (h : IsBuilt P) (first : Node) (more : List Node) :
    P (featureIdsOf first more) := by
  unfold featureIdsOf
  split
  · exact h.undefined _
  · exact h.featureIds _

theorem of_getD (h : IsBuilt P) {read : Option Predicate} (hread : ∀ p, read = some p → P p)
    (element : String) : P (read.getD (.undefined element)) := by
  cases read with
  | none => exact h.undefined element
  | some p => exact hread p rfl

theorem of_leaf (h : IsBuilt P) (n : Node) : P (leafOf n) := by
  unfold leafOf
  dsimp only
  split
  · exact h.of_getD (fun _ => h.spatial) _
  · exact h.of_getD (fun _ => h.comparison) _
  · split
    · exact h.of_featureIds n []
    · exact h.undefined _

theorem of_chain (h : IsBuilt P) (op : Connective) {first : Predicate} {more : List Predicate}
    (hoperands : ∀ p ∈ first :: more, P p) : P (chain op first more) := by
  induction more generalizing first with
  | nil => exact hoperands first List.mem_cons_self
  | cons second more ih =>
      rw [List.forall_mem_cons] at hoperands
      exact h.junction hoperands.1 (ih hoperands.2)

theorem of_logical (h : IsBuilt P) (name : String) {operands : List Predicate}
    (hoperands : ∀ p ∈ operands, P p) : P (logicalOf name operands) := by
  unfold logicalOf
  split
  · exact h.negation (hoperands _ List.mem_cons_self)
  · exact h.of_chain .and hoperands
  · exact h.of_chain .or hoperands
  · exact h.undefined _

mutual

theorem of_node (h : IsBuilt P) (n : Node) : P (ofNode n) := by
  cases n with
  | element name attributes content =>
      rw [ofNode]
      split
      · exact h.of_logical name (h.of_nodes content)
      · exact h.of_leaf _
  | text value => exact h.undefined _
  | comment value => exact h.undefined _
  | instruction value => exact h.undefined _

theorem of_nodes (h : IsBuilt P) (ns : List Node) : ∀ p ∈ ofNodes ns, P p := by
  cases ns with
  | nil => exact fun p hp => by cases hp
  | cons n ns =>
      rw [ofNodes]
      split
      · rw [List.forall_mem_cons]
        exact ⟨h.of_node n, h.of_nodes ns⟩
      · exact h.of_nodes ns

end

/-- Every predicate that is read from a document has the property. -/
theorem of_document (h : IsBuilt P) {text : String} {p : Predicate}
    (hp : ofDocument text = .ok p) : P p := by
  obtain ⟨filter, hfilter, -⟩ := exists_ofFilter_of_ofDocument hp
  unfold ofFilter at hfilter
  split at hfilter
  · cases hfilter
  · split at hfilter
    · cases hfilter
      exact h.of_featureIds _ _
    · cases hfilter
      exact h.of_node _

end IsBuilt

/-! ## Spatial predicates of elements -/

mutual

/-- Mapping its positions does not change the kind of a shape. -/
theorem kind?_map (f : Geometry.Position → Geometry.Position) (s : Shape) :
    (s.map f).kind? = s.kind? := by
  cases s with
  | collection members =>
      rw [Shape.map, Shape.kind?, Shape.kind?, firstKind?_mapAll]
  | _ => rfl

theorem firstKind?_mapAll (f : Geometry.Position → Geometry.Position) (members : List Shape) :
    Shape.firstKind? (Shape.mapAll f members) = Shape.firstKind? members := by
  cases members with
  | nil => rfl
  | cons s ss => exact kind?_map f s

end

theorem isSome_kind?_of_writtenShape? {n : Node} {written : Except Gml.Fault Shape} {s : Shape}
    (h : Gml.writtenShape? n = some written) (hs : written = .ok s) : s.kind?.isSome = true := by
  subst hs
  unfold Gml.writtenShape? at h
  dsimp only at h
  split at h
  case h_12 => cases h
  -- One case for each name of a geometry, each a kind of its own.
  all_goals
    obtain ⟨_, -, rfl⟩ := exists_of_map_eq_ok (Option.some.inj h)
    rfl

/-- Every shape that is read has a kind, since it is no collection. -/
theorem isSome_kind?_of_shape {n : Node} {s : Shape} {crs : Option String}
    (h : Gml.shape n = .ok (s, crs)) : s.kind?.isSome = true := by
  unfold Gml.shape at h
  split at h
  · next written hwritten =>
    obtain ⟨t, ht, h⟩ := exists_of_bind_eq_ok h
    cases h
    have hkind := isSome_kind?_of_writtenShape? hwritten ht
    split
    · rwa [Shape.swapped, kind?_map]
    · exact hkind
  · split at h
    · obtain ⟨_, -, h⟩ := exists_of_map_eq_ok h
      cases h
      rfl
    · obtain ⟨_, -, h⟩ := exists_of_map_eq_ok h
      cases h
      rfl
    · cases h

theorem isSome_kind?_of_geometryOf? {op : SpatialOperator} {n : Node} {p : Predicate}
    (h : geometryOf? op n = some p) :
    ∃ shape crs distance, p = geometry shape crs distance ∧ shape.kind?.isSome = true := by
  obtain ⟨element, -, h⟩ := Option.bind_eq_some_iff.1 h
  obtain ⟨⟨shape, crs⟩, hshape, h⟩ := Option.bind_eq_some_iff.1 h
  dsimp only at h
  have hkind := isSome_kind?_of_shape (eq_ok_of_toOption_eq_some hshape)
  by_cases hop : op.isDistance = true
  · rw [if_pos hop] at h
    obtain ⟨distance, -, h⟩ := Option.bind_eq_some_iff.1 h
    cases h
    exact ⟨shape, crs, some distance, rfl, hkind⟩
  · rw [if_neg hop] at h
    cases h
    exact ⟨shape, crs, none, rfl, hkind⟩

theorem hasSpatial_of_spatialOf? {op : SpatialOperator} {n : Node} {p : Predicate}
    (h : spatialOf? op n = some p) : p.hasSpatial = true ∧ p.isSpatial = true := by
  obtain ⟨name, -, h⟩ := Option.bind_eq_some_iff.1 h
  dsimp only at h
  by_cases hop : op = .bbox
  · rw [if_pos hop] at h
    obtain ⟨operand, -, h⟩ := Option.bind_eq_some_iff.1 h
    cases h
    subst hop
    exact ⟨rfl, rfl⟩
  · rw [if_neg hop] at h
    obtain ⟨operand, hoperand, h⟩ := Option.bind_eq_some_iff.1 h
    obtain ⟨shape, crs, distance, rfl, hkind⟩ := isSome_kind?_of_geometryOf? hoperand
    cases h
    exact ⟨Bool.or_eq_true_iff.2 (.inr hkind), rfl⟩

/-- Predicates of elements have their spatial nodes where `hasSpatial` looks for them. -/
theorem isBuilt_hasSpatial : IsBuilt fun p => p.hasSpatial = p.nodes.any isSpatial where
  undefined _ := rfl
  featureIds _ := rfl
  comparison {op n p} h := by
    obtain ⟨name, -, h⟩ := Option.bind_eq_some_iff.1 h
    cases op with
    | relation r =>
        obtain ⟨value, -, h⟩ := Option.bind_eq_some_iff.1 h
        cases h
        rfl
    | like =>
        obtain ⟨pattern, -, h⟩ := Option.bind_eq_some_iff.1 h
        obtain ⟨options, -, h⟩ := Option.bind_eq_some_iff.1 h
        cases h
        rfl
    | between =>
        obtain ⟨lower, -, h⟩ := Option.bind_eq_some_iff.1 h
        obtain ⟨upper, -, h⟩ := Option.bind_eq_some_iff.1 h
        cases h
        rfl
  spatial h := by
    obtain ⟨hhas, hspatial⟩ := hasSpatial_of_spatialOf? h
    rw [hhas]
    exact (List.any_eq_true.2 ⟨_, mem_nodes_self _, hspatial⟩).symm
  negation h := by
    rw [hasSpatial, nodes, List.any_cons, h]
    rfl
  junction hleft hright := by
    rw [hasSpatial, nodes, List.any_cons, List.any_append, hleft, hright]
    rfl

/-! ## Agreement -/

/-- The classifiers agree.  If every box has a rectangle, a box can be lifted out exactly if none
has the name of one, or one has and is the top bounding box, which is then the first box.  A
predicate that is read from a document is spatial exactly if a node is, and simple exactly if its
only spatial node, if it has one, is a box that is reached through conjunctions alone. -/
theorem classifiers_agree :
    (∀ p : Predicate, (∀ q ∈ p.nodes, q.isBox = true → q.boxParts?.isSome = true) →
      (p.isBoxLiftable = true ↔
        p.count "BBOX" = 0 ∨ (p.count "BBOX" = 1 ∧ p.topBoxNode?.isSome = true)) ∧
      (p.count "BBOX" = 1 → p.topBoxNode?.isSome = true → p.topBox? = p.firstBox?)) ∧
    ∀ (text : String) (p : Predicate), ofDocument text = .ok p →
      (p.hasSpatial = true ↔ ∃ q ∈ p.nodes, q.isSpatial = true) ∧
      (p.isSimple = true ↔
        (∀ q ∈ p.nodes, q.isSpatial = true → q.isBox = true ∧ IsConjunct q p) ∧
          p.nodes.countP isSpatial ≤ 1) := by
  constructor
  · intro p hboxes
    rw [isSome_topBoxNode?_iff hboxes]
    refine ⟨p.isBoxLiftable_iff, fun hcount htop => ?_⟩
    exact topBox?_eq_firstBox? hcount ((isSome_topBoxNode?_iff hboxes).2 htop)
  · intro text p hp
    obtain ⟨filter, -, hdefined⟩ := exists_ofFilter_of_ofDocument hp
    refine ⟨?_, isSimple_iff hdefined⟩
    rw [isBuilt_hasSpatial.of_document hp, List.any_eq_true]

set_option maxRecDepth 4096 in
theorem classifiers_agree_box_beside_negation : ∃ text p, ofDocument text = .ok p ∧
    p.nodes.map tag = ["AND", "NOT", "FeatureId", "BBOX", "PropertyName", "Box"] ∧
    p.isSimple = true ∧ (∀ q ∈ p.nodes, q.isBox = true → q.boxParts?.isSome = true) ∧
    (p.isBoxLiftable = true ↔
      p.count "BBOX" = 0 ∨ (p.count "BBOX" = 1 ∧ p.topBoxNode?.isSome = true)) ∧
    (p.hasSpatial = true ↔ ∃ q ∈ p.nodes, q.isSpatial = true) ∧
    (p.isSimple = true ↔
      (∀ q ∈ p.nodes, q.isSpatial = true → q.isBox = true ∧ IsConjunct q p) ∧
        p.nodes.countP isSpatial ≤ 1) := by
  have hread : (ofDocument (String.ofList (
      "<Filter><And><Not><FeatureId fid='r.1'/></Not>".toList ++
      "<BBOX><PropertyName>g</PropertyName><Box><coordinates>0,0 1,1</coordinates></Box>".toList ++
      "</BBOX></And></Filter>".toList))).toOption.map (fun p =>
        (p.nodes.map tag, p.isSimple, p.nodes.all fun q => !q.isBox || q.boxParts?.isSome)) =
      some (["AND", "NOT", "FeatureId", "BBOX", "PropertyName", "Box"], true, true) := by
    simp only [ofDocument, Text.contains, Xml.unprefixed, String.toList_ofList,
      Xml.document?_ofList]
    decide +kernel
  obtain ⟨p, hp, hanswers⟩ := Option.map_eq_some_iff.1 hread
  rw [Prod.mk.injEq, Prod.mk.injEq] at hanswers
  obtain ⟨htags, hsimple, hcarries⟩ := hanswers
  have hboxes : ∀ q ∈ p.nodes, q.isBox = true → q.boxParts?.isSome = true := by
    intro q hq hbox
    have h := List.all_eq_true.1 hcarries q hq
    rwa [hbox] at h
  have hp := eq_ok_of_toOption_eq_some hp
  exact ⟨_, p, hp, htags, hsimple, hboxes, (classifiers_agree.1 p hboxes).1,
    classifiers_agree.2 _ p hp⟩

end FilterEncoding.Predicate
