import FilterEncoding.Proofs.Plan.Equivalence

/-!
# What the dialects can express

Whether a dialect has an expression for a filter does not depend on how the expression is written.
A filter is followed from left to right without its top bounding box, and the first place that the
dialect cannot say decides.

* `Predicate.places` — what is met on that way: the leaves, and a mark where a conjunction or
  disjunction has no second operand.
* `Language.failure?_compile` — in any language, the obstacle of a filter is that of its first place
  with one.
* `Predicate.dialects_agree` — the three dialects say the same leaves, up to the comparisons with
  shapes in the common dialect and the unsafe patterns in SQL.
-/

namespace FilterEncoding

open FilterEncoding.Geometry (Engine)

/-! ## Failures -/

/-- Why a computation fails, if it does. -/
def failure? {ε α : Type} : Except ε α → Option ε
  | .error e => some e
  | .ok _ => none

theorem failure?_eq_none_iff {ε α : Type} {x : Except ε α} :
    failure? x = none ↔ ∃ a, x = .ok a := by
  cases x <;> simp [failure?]

theorem failure?_eq_some_iff {ε α : Type} {x : Except ε α} {e : ε} :
    failure? x = some e ↔ x = .error e := by
  cases x <;> simp [failure?]

theorem failure?_map {ε α β : Type} (f : α → β) (x : Except ε α) :
    failure? (f <$> x) = failure? x := by
  cases x <;> rfl

/-- The first of two steps fails before the second. -/
theorem failure?_pair {ε α β γ : Type} (f : α → β → γ) (x : Except ε α) (y : Except ε β) :
    failure? (do let a ← x; let b ← y; pure (f a b)) = (failure? x).or (failure? y) := by
  cases x <;> cases y <;> rfl

/-- A step behind which there is always a failure. -/
theorem failure?_throw {ε α β : Type} (x : Except ε α) (e : ε) :
    failure? (do let _ ← x; throw e : Except ε β) = (failure? x).or (some e) := by
  cases x <;> rfl

/-! ## Places -/

namespace Predicate

/-- What is met on the way through a filter. -/
inductive Place where
  | leaf (p : Predicate)
  /-- The second operand of a conjunction or disjunction is missing. -/
  | gap

/-- The test at a place. -/
def Place.test? : Place → Option Test
  | .leaf p => p.test?
  | .gap => none

/-- The places of a filter from left to right.  A negation has only its first operand. -/
def places : Predicate → List Place
  | unary .not operand => operand.places
  | unary _ operand => operand.places ++ [.gap]
  | binary .not left _ => left.places
  | binary .and left right => left.places ++ right.places
  | binary .or left right => left.places ++ right.places
  | p => [.leaf p]

end Predicate

namespace Language

open Predicate (Place)

variable {τ : Type}

/-- Why a language cannot say what stands at a place. -/
def obstacle? (language : Language τ) (x : Place) : Option Obstacle :=
  match x.test? with
  | some test => failure? (language.test test)
  | none => some .inexpressible

/-- Where no box is left out, the first place that a language cannot say is its obstacle. -/
theorem failure?_express (language : Language τ) (p : Predicate) :
    failure? (language.express false p) = p.places.findSome? language.obstacle? := by
  induction p with
  | unary op operand ih =>
      -- With one operand only a negation is complete; the others fail behind their operand.
      cases op with
      | not => rw [express, failure?_map, ih, Predicate.places]
      | _ =>
          rw [express.eq_2 _ _ _ _ (by decide), failure?_throw, ih,
            Predicate.places.eq_2 _ _ (by decide), List.findSome?_append]
          rfl
  | binary op left right ihLeft ihRight =>
      cases op with
      | not => rw [express, failure?_map, ihLeft, Predicate.places]
      | and =>
          rw [express_false_and, failure?_pair, ihLeft, ihRight, Predicate.places,
            List.findSome?_append]
      | or =>
          rw [express, failure?_pair, ihLeft, ihRight, Predicate.places, List.findSome?_append]
  | _ =>
      simp only [express, Predicate.places, List.findSome?_singleton, obstacle?, Place.test?]
      generalize Predicate.test? _ = test
      cases test <;> rfl

/-- Leaving the top bounding box out makes no obstacle and removes none beside it. -/
theorem failure?_express_removal (language : Language τ) {box partner p rest : Predicate}
    (h : Predicate.Removal box partner p rest) (hbox : box.isBox = true) :
    failure? (language.express true p) = failure? (language.express false rest) := by
  induction h with
  | first _ => rw [language.express_and_of_isBox_left hbox, failure?_map]
  | second hpartner =>
      rw [language.express_and_of_isBox_right (Predicate.not_isBox_of_conjunctBoxes_eq_nil hpartner)
        hbox, failure?_map]
  | inLeft left right rest hright hleft ih =>
      rw [language.express_and_of_not_isBox true hleft.not_isBox
          (Predicate.not_isBox_of_conjunctBoxes_eq_nil hright),
        language.express_false_and, failure?_pair, failure?_pair, ih,
        language.express_of_conjunctBoxes_eq_nil hright true]
  | inRight left right rest hleft hright ih =>
      rw [language.express_and_of_not_isBox true (Predicate.not_isBox_of_conjunctBoxes_eq_nil hleft)
          hright.not_isBox,
        language.express_false_and, failure?_pair, failure?_pair, ih,
        language.express_of_conjunctBoxes_eq_nil hleft true]

/-- The obstacle of a filter is that of the first place, without the top bounding box, that the
language cannot say. -/
theorem failure?_compile (language : Language τ) (p : Predicate) :
    failure? (language.compile p) = p.withoutTopBox.places.findSome? language.obstacle? := by
  rw [← failure?_express, compile_eq_express]
  rcases p.withoutTopBox_cases with ⟨hnone, heq⟩ | ⟨hself, heq⟩ | ⟨box, partner, hbox, -, hrest⟩
  · rw [hnone, heq, Option.isSome_none]
  · -- A filter that is a box is a leaf, which is expressed the same way in both cases.
    have hbox := Predicate.isBox_of_topBoxNode? hself
    rw [heq]
    cases p with
    | spatial op left right => rfl
    | _ => cases hbox
  · rw [hbox, Option.isSome_some]
    exact failure?_express_removal language hrest (Predicate.isBox_of_topBoxNode? hbox)

end Language

/-! ## Leaves that every dialect can say -/

/-- Whether none of the metacharacters is empty. -/
def LikeOptions.IsComplete (o : LikeOptions) : Prop :=
  o.wildcard ≠ "" ∧ o.singleCharacter ≠ "" ∧ o.escape ≠ ""

theorem LikeOptions.isSome_metacharacters?_iff (o : LikeOptions) :
    o.metacharacters?.isSome ↔ o.IsComplete := by
  unfold metacharacters? IsComplete
  -- A metacharacter is the first character of its text, so it is there unless the text is empty.
  simp only [← String.toList_eq_nil_iff, ne_eq]
  cases o.wildcard.toList <;> cases o.singleCharacter.toList <;> cases o.escape.toList <;> simp

theorem LikeOptions.head?_escape {o : LikeOptions} {m : Metacharacters}
    (h : o.metacharacters? = some m) : o.escape.toList.head? = some m.escape := by
  unfold metacharacters? at h
  split at h
  · next _ _ _ _ escape _ _ _ hescape =>
    cases h
    rw [hescape, List.head?_cons]
  · cases h

namespace Predicate.Place

/-- The leaves that can be said of a layer in every dialect, save that SQL refuses unsafe
patterns. -/
inductive Expressible (layer : Layer) : Place → Prop
  | between (name lower upper : String) (like : Option LikeOptions) :
      Expressible layer (.leaf (comparison .between (property name) (bounds lower upper) like))
  | relation (r : Relation) (name : String) (value : Option String) (ignoreCase : Bool)
      (like : Option LikeOptions) :
      Expressible layer
        (.leaf (comparison (.relation r) (property name) (literal value ignoreCase) like))
  | like (name pattern : String) (ignoreCase : Bool) (options : LikeOptions)
      (hcomplete : options.IsComplete) :
      Expressible layer
        (.leaf
          (comparison .like (property name) (literal (some pattern) ignoreCase) (some options)))
  | featureIds (tokens : List String) (hcolumn : layer.idAttribute.isSome)
      (hids : FeatureId.bareIds tokens ≠ []) :
      Expressible layer (.leaf (featureIds tokens))

/-- The pattern comparisons whose escape character is a single quote. -/
inductive Unsafe : Place → Prop
  | like (name pattern : String) (ignoreCase : Bool) (options : LikeOptions)
      (hcomplete : options.IsComplete) (hescape : options.escape.toList.head? = some '\'') :
      Unsafe
        (.leaf
          (comparison .like (property name) (literal (some pattern) ignoreCase) (some options)))

/-- The comparisons with a rectangle or a shape. -/
inductive Spatial : Place → Prop
  | box (op : SpatialOperator) (left : Predicate) (rectangle : Geometry.Rectangle)
      (crs : Option String) : Spatial (.leaf (spatial op left (box rectangle crs)))
  | geometry (op : SpatialOperator) (left : Predicate) (shape : Geometry.Shape)
      (crs : Option String) (distance : Option Distance) :
      Spatial (.leaf (spatial op left (geometry shape crs distance)))

theorem Unsafe.expressible {x : Place} (h : x.Unsafe) (layer : Layer) : x.Expressible layer := by
  cases h with
  | like name pattern ignoreCase options hcomplete _ => exact .like _ _ _ _ hcomplete

end Predicate.Place

/-! ## The tests of the leaves -/

namespace Test

/-- The tests that every dialect can say of a layer, up to unsafe patterns. -/
def IsPlain (layer : Layer) : Test → Prop
  | .featureIds tokens => layer.idAttribute.isSome ∧ FeatureId.bareIds tokens ≠ []
  | .inBox _ _ | .toShape _ _ _ _ => False
  | .relation _ _ _ _ | .between _ _ _ | .like _ _ _ _ => True

def IsSpatial : Test → Prop
  | .inBox _ _ | .toShape _ _ _ _ => True
  | _ => False

def IsUnsafe : Test → Prop
  | .like _ _ m _ => m.escape = '\''
  | _ => False

end Test

namespace Predicate.Place

variable {layer : Layer} {x : Place}

theorem expressible_iff : x.Expressible layer ↔ ∃ t, x.test? = some t ∧ t.IsPlain layer := by
  constructor
  · intro h
    cases h with
    | between name lower upper like => exact ⟨_, rfl, trivial⟩
    | relation r name value ignoreCase like => exact ⟨_, rfl, trivial⟩
    | like name pattern ignoreCase options hcomplete =>
        obtain ⟨m, hm⟩ := Option.isSome_iff_exists.1
          (options.isSome_metacharacters?_iff.2 hcomplete)
        exact ⟨_, Option.map_eq_some_iff.2 ⟨m, hm, rfl⟩, trivial⟩
    | featureIds tokens hcolumn hids => exact ⟨_, rfl, hcolumn, hids⟩
  · rintro ⟨t, ht, hplain⟩
    cases x with
    | gap => cases ht
    | leaf p =>
        change p.test? = some t at ht
        unfold Predicate.test? at ht
        split at ht
        · exact .relation _ _ _ _ _
        · exact .between _ _ _ _
        · next options =>
          obtain ⟨m, hm, rfl⟩ := Option.map_eq_some_iff.1 ht
          exact .like _ _ _ _ (options.isSome_metacharacters?_iff.1 (hm ▸ rfl))
        · cases ht
          exact .featureIds _ hplain.1 hplain.2
        · cases ht
          exact hplain.elim
        · cases ht
          exact hplain.elim
        · cases ht

theorem unsafe_iff : x.Unsafe ↔ ∃ t, x.test? = some t ∧ t.IsUnsafe := by
  constructor
  · intro h
    cases h with
    | like name pattern ignoreCase options hcomplete hescape =>
        obtain ⟨m, hm⟩ := Option.isSome_iff_exists.1
          (options.isSome_metacharacters?_iff.2 hcomplete)
        refine ⟨_, Option.map_eq_some_iff.2 ⟨m, hm, rfl⟩, ?_⟩
        rw [LikeOptions.head?_escape hm] at hescape
        exact Option.some.inj hescape
  · rintro ⟨t, ht, hunsafe⟩
    cases x with
    | gap => cases ht
    | leaf p =>
        change p.test? = some t at ht
        unfold Predicate.test? at ht
        split at ht
        · cases ht
          exact hunsafe.elim
        · cases ht
          exact hunsafe.elim
        · next options =>
          obtain ⟨m, hm, rfl⟩ := Option.map_eq_some_iff.1 ht
          exact .like _ _ _ _ (options.isSome_metacharacters?_iff.1 (hm ▸ rfl))
            ((LikeOptions.head?_escape hm).trans (congrArg some hunsafe))
        · cases ht
          exact hunsafe.elim
        · cases ht
          exact hunsafe.elim
        · cases ht
          exact hunsafe.elim
        · cases ht

theorem spatial_iff : x.Spatial ↔ ∃ t, x.test? = some t ∧ t.IsSpatial := by
  constructor
  · intro h
    cases h with
    | box op left rectangle crs => exact ⟨_, rfl, trivial⟩
    | geometry op left shape crs distance => exact ⟨_, rfl, trivial⟩
  · rintro ⟨t, ht, hspatial⟩
    cases x with
    | gap => cases ht
    | leaf p =>
        change p.test? = some t at ht
        unfold Predicate.test? at ht
        split at ht
        · cases ht
          exact hspatial.elim
        · cases ht
          exact hspatial.elim
        · obtain ⟨m, hm, rfl⟩ := Option.map_eq_some_iff.1 ht
          exact hspatial.elim
        · cases ht
          exact hspatial.elim
        · exact .box _ _ _ _
        · exact .geometry _ _ _ _ _
        · cases ht

end Predicate.Place

/-! ## The obstacles of the dialects -/

/-- The comparison with feature ids has an expression exactly if the layer has an attribute for them
and there is an id. -/
theorem failure?_ids (d : Dialect) (layer : Layer) (tokens : List String)
    (write : String → List String → Bool → String) :
    let written : Except Obstacle String :=
      match layer.idAttribute, d.idList? tokens with
      | some column, some (ids, quoted) => .ok (write column ids quoted)
      | _, _ => .error .inexpressible
    ((Test.featureIds tokens).IsPlain layer ∧ failure? written = none) ∨
      (¬(Test.featureIds tokens).IsPlain layer ∧ failure? written = some .inexpressible) := by
  unfold Test.IsPlain Dialect.idList?
  cases layer.idAttribute <;> cases hids : FeatureId.bareIds tokens <;> simp [failure?, hids]

theorem Mapserver.failure?_test (layer : Layer) (t : Test) :
    (t.IsPlain layer ∧ failure? (test layer t) = none) ∨
      (¬t.IsPlain layer ∧ failure? (test layer t) = some .inexpressible) := by
  cases t with
  | featureIds tokens =>
      exact failure?_ids .mapserver layer tokens fun column ids quoted =>
        anyOf (ids.map (compareId layer column quoted))
  | inBox rectangle crs => exact .inr ⟨id, rfl⟩
  | toShape op shape crs distance => exact .inr ⟨id, rfl⟩
  | _ => exact .inl ⟨trivial, rfl⟩

theorem Common.failure?_test (layer : Layer) (engine : Engine) (t : Test) :
    ((t.IsPlain layer ∨ t.IsSpatial) ∧ failure? (test layer engine t) = none) ∨
      (¬(t.IsPlain layer ∨ t.IsSpatial) ∧
        failure? (test layer engine t) = some .inexpressible) := by
  cases t with
  | featureIds tokens =>
      simp only [Test.IsSpatial, or_false]
      exact failure?_ids .common layer tokens fun column ids quoted =>
        anyOf (ids.map (compareId layer column quoted))
  | inBox rectangle crs => exact .inl ⟨.inr trivial, rfl⟩
  | toShape op shape crs distance => exact .inl ⟨.inr trivial, rfl⟩
  | _ => exact .inl ⟨.inl trivial, rfl⟩

theorem Sql.failure?_test (layer : Layer) (t : Test) :
    (t.IsPlain layer ∧ ¬t.IsUnsafe ∧ failure? (test layer t) = none) ∨
      (t.IsUnsafe ∧ failure? (test layer t) = some (.unsafeEscape '\'')) ∨
        (¬t.IsPlain layer ∧ failure? (test layer t) = some .inexpressible) := by
  cases t with
  | like name pattern m ignoreCase =>
      by_cases hm : m.escape = '\''
      · refine .inr (.inl ⟨hm, ?_⟩)
        rw [test, like, if_pos hm, hm, failure?]
      · refine .inl ⟨trivial, hm, ?_⟩
        rw [test, like, if_neg hm, failure?]
  | featureIds tokens =>
      rcases failure?_ids .sql layer tokens fun column ids quoted =>
        anyOf (ids.map (compareId layer (layer.quoteIdentifier column) quoted)) with
        ⟨hplain, h⟩ | ⟨hplain, h⟩
      · exact .inl ⟨hplain, id, h⟩
      · exact .inr (.inr ⟨hplain, h⟩)
  | inBox rectangle crs => exact .inr (.inr ⟨id, rfl⟩)
  | toShape op shape crs distance => exact .inr (.inr ⟨id, rfl⟩)
  | _ => exact .inl ⟨trivial, id, rfl⟩

namespace Predicate

open Place

section Obstacles

variable (layer : Layer) (engine : Engine) (x : Place)

theorem mapserver_obstacle? :
    (x.Expressible layer ∧ (Mapserver.language layer).obstacle? x = none) ∨
      (¬x.Expressible layer ∧ (Mapserver.language layer).obstacle? x = some .inexpressible) := by
  rw [expressible_iff]
  unfold Language.obstacle?
  cases x.test? with
  | none => simp
  | some t => simpa [Mapserver.language] using Mapserver.failure?_test layer t

theorem common_obstacle? :
    ((x.Expressible layer ∨ x.Spatial) ∧ (Common.language layer engine).obstacle? x = none) ∨
      (¬(x.Expressible layer ∨ x.Spatial) ∧
        (Common.language layer engine).obstacle? x = some .inexpressible) := by
  rw [expressible_iff, spatial_iff]
  unfold Language.obstacle?
  cases x.test? with
  | none => simp
  | some t => simpa [Common.language] using Common.failure?_test layer engine t

theorem sql_obstacle? :
    (x.Expressible layer ∧ ¬x.Unsafe ∧ (Sql.language layer).obstacle? x = none) ∨
      (x.Unsafe ∧ (Sql.language layer).obstacle? x = some (.unsafeEscape '\'')) ∨
        (¬x.Expressible layer ∧ (Sql.language layer).obstacle? x = some .inexpressible) := by
  rw [expressible_iff, unsafe_iff]
  unfold Language.obstacle?
  cases x.test? with
  | none => simp
  | some t => simpa [Sql.language] using Sql.failure?_test layer t

end Obstacles

variable {layer : Layer} {engine : Engine} {x : Place}

theorem mapserver_obstacle?_eq_none_iff :
    (Mapserver.language layer).obstacle? x = none ↔ x.Expressible layer := by
  rcases mapserver_obstacle? layer x with ⟨h, hx⟩ | ⟨h, hx⟩ <;> simp [h, hx]

theorem common_obstacle?_eq_none_iff :
    (Common.language layer engine).obstacle? x = none ↔ x.Expressible layer ∨ x.Spatial := by
  rcases common_obstacle? layer engine x with ⟨h, hx⟩ | ⟨h, hx⟩ <;> simp [h, hx]

theorem sql_obstacle?_eq_none_iff :
    (Sql.language layer).obstacle? x = none ↔ x.Expressible layer ∧ ¬x.Unsafe := by
  rcases sql_obstacle? layer x with ⟨h, hsafe, hx⟩ | ⟨h, hx⟩ | ⟨h, hx⟩ <;> simp [*]

theorem sql_obstacle?_eq_unsafeEscape_iff {c : Char} :
    (Sql.language layer).obstacle? x = some (.unsafeEscape c) ↔ c = '\'' ∧ x.Unsafe := by
  rcases sql_obstacle? layer x with ⟨h, hsafe, hx⟩ | ⟨h, hx⟩ | ⟨h, hx⟩
  · simp [hx, hsafe]
  · simp [hx, h, eq_comm]
  · simpa [hx] using fun _ => mt (Unsafe.expressible · layer) h

theorem sql_obstacle?_eq_inexpressible_iff :
    (Sql.language layer).obstacle? x = some .inexpressible ↔ ¬x.Expressible layer := by
  rcases sql_obstacle? layer x with ⟨h, hsafe, hx⟩ | ⟨h, hx⟩ | ⟨h, hx⟩
  · simp [hx, h]
  · simp [hx, h.expressible layer]
  · simp [hx, h]

end Predicate

/-! ## Agreement -/

namespace Dialect

variable {d : Dialect} {layer : Layer} {engine : Engine} {p : Predicate}

theorem exists_compile_iff :
    (∃ text, d.compile layer engine p = .ok (some text)) ↔
      ∀ x ∈ p.withoutTopBox.places, (d.language layer engine).obstacle? x = none := by
  simp only [compile_eq_ok_some_iff]
  rw [← failure?_eq_none_iff, Language.failure?_compile, List.findSome?_eq_none_iff]

theorem compile_eq_ok_none_iff :
    d.compile layer engine p = .ok none ↔
      p.withoutTopBox.places.findSome? (d.language layer engine).obstacle? =
        some .inexpressible := by
  rw [← Language.failure?_compile, failure?_eq_some_iff]
  unfold compile
  split <;> simp_all

theorem compile_eq_error_iff {e : UnsafeEscape} :
    d.compile layer engine p = .error e ↔
      p.withoutTopBox.places.findSome? (d.language layer engine).obstacle? =
        some (.unsafeEscape e.character) := by
  rw [← Language.failure?_compile, failure?_eq_some_iff]
  obtain ⟨c⟩ := e
  unfold compile
  split <;> simp_all

end Dialect

namespace Predicate

/-- What the dialects say of a filter, read off the places that remain without its top bounding
box. -/
structure DialectsAgree (layer : Layer) (engine : Engine) (p : Predicate) : Prop where
  mapserver_some : (∃ text, Dialect.mapserver.compile layer engine p = .ok (some text)) ↔
    ∀ x ∈ p.withoutTopBox.places, x.Expressible layer
  mapserver_none : Dialect.mapserver.compile layer engine p = .ok none ↔
    ∃ x ∈ p.withoutTopBox.places, ¬x.Expressible layer
  sql_some : (∃ text, Dialect.sql.compile layer engine p = .ok (some text)) ↔
    ∀ x ∈ p.withoutTopBox.places, x.Expressible layer ∧ ¬x.Unsafe
  /-- The first place that SQL cannot say is an unsafe pattern. -/
  sql_error : ∀ e, Dialect.sql.compile layer engine p = .error e ↔
    e = ⟨'\''⟩ ∧ ∃ before x after, p.withoutTopBox.places = before ++ x :: after ∧
      (∀ y ∈ before, y.Expressible layer ∧ ¬y.Unsafe) ∧ x.Unsafe
  /-- The first place that SQL cannot say is no pattern that another dialect could. -/
  sql_none : Dialect.sql.compile layer engine p = .ok none ↔
    ∃ before x after, p.withoutTopBox.places = before ++ x :: after ∧
      (∀ y ∈ before, y.Expressible layer ∧ ¬y.Unsafe) ∧ ¬x.Expressible layer
  common_some : (∃ text, Dialect.common.compile layer engine p = .ok (some text)) ↔
    ∀ x ∈ p.withoutTopBox.places, x.Expressible layer ∨ x.Spatial
  common_none : Dialect.common.compile layer engine p = .ok none ↔
    ∃ x ∈ p.withoutTopBox.places, ¬(x.Expressible layer ∨ x.Spatial)

theorem dialects_agree (layer : Layer) (engine : Engine) (p : Predicate) :
    p.DialectsAgree layer engine where
  -- SQL has two obstacles, so that the first place with one decides; the others have one only.
  mapserver_some := by
    rw [Dialect.exists_compile_iff]
    exact forall₂_congr fun x _ => mapserver_obstacle?_eq_none_iff
  mapserver_none := by
    rw [Dialect.compile_eq_ok_none_iff, findSome?_eq_some_iff_of_forall]
    · exact exists_congr fun x => and_congr_right fun _ => not_congr mapserver_obstacle?_eq_none_iff
    · exact fun x => (mapserver_obstacle? layer x).imp And.right And.right
  sql_some := by
    rw [Dialect.exists_compile_iff]
    exact forall₂_congr fun x _ => sql_obstacle?_eq_none_iff
  sql_error := by
    intro e
    rw [Dialect.compile_eq_error_iff, List.findSome?_eq_some_iff]
    simp only [Dialect.language, sql_obstacle?_eq_none_iff, sql_obstacle?_eq_unsafeEscape_iff]
    constructor
    · rintro ⟨before, x, after, heq, ⟨hc, hx⟩, hbefore⟩
      exact ⟨congrArg UnsafeEscape.mk hc, before, x, after, heq, hbefore, hx⟩
    · rintro ⟨rfl, before, x, after, heq, hbefore, hx⟩
      exact ⟨before, x, after, heq, ⟨rfl, hx⟩, hbefore⟩
  sql_none := by
    rw [Dialect.compile_eq_ok_none_iff, List.findSome?_eq_some_iff]
    simp only [Dialect.language, sql_obstacle?_eq_none_iff, sql_obstacle?_eq_inexpressible_iff]
    constructor
    · rintro ⟨before, x, after, heq, hx, hbefore⟩
      exact ⟨before, x, after, heq, hbefore, hx⟩
    · rintro ⟨before, x, after, heq, hbefore, hx⟩
      exact ⟨before, x, after, heq, hx, hbefore⟩
  common_some := by
    rw [Dialect.exists_compile_iff]
    exact forall₂_congr fun x _ => common_obstacle?_eq_none_iff
  common_none := by
    rw [Dialect.compile_eq_ok_none_iff, findSome?_eq_some_iff_of_forall]
    · exact exists_congr fun x => and_congr_right fun _ => not_congr common_obstacle?_eq_none_iff
    · exact fun x => (common_obstacle? layer engine x).imp And.right And.right

end Predicate

end FilterEncoding
