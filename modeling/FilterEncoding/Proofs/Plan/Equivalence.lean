import FilterEncoding.Layer.Schema
import FilterEncoding.Plan
import FilterEncoding.Proofs.Expression.Expressing
import FilterEncoding.Proofs.Plan.TopBox

/-!
# Plans select what the filter selects

A plan applies the top bounding box of a filter as the rectangle of the query and what remains as
an expression.  This loses no part of the filter and applies none twice: a plan with an expression
admits a feature exactly if the filter is true of it, and a plan without one admits at least those
features.

* `Layer.Represents` — what it means for a plan to stand for a predicate.
* `Predicate.Removal.express_eq`, `Predicate.Removal.mapserver_express` — leaving the box out of an
  expression is expressing the predicate from which the box was removed.  The Mapserver dialect adds
  one pair of parentheses around the partner of the box.
* `Layer.plan_represents` — every plan stands for its predicate.

The rectangle of a query is taken to admit a feature exactly if the bounding box does.
-/

namespace FilterEncoding

open FilterEncoding.Geometry (Engine)

namespace Predicate.Removal

variable {τ : Type} {box partner p rest : Predicate}

theorem not_isBox (h : Removal box partner p rest) : ¬p.isBox = true := by
  cases h <;> exact Bool.false_ne_true

/-- Where the partner of the box is written as it is, leaving the box out of the expression is
removing it from the predicate. -/
theorem express_eq (h : Removal box partner p rest) (hbox : box.isBox = true)
    (language : Language τ) (hbeside : language.besideBox = id) :
    language.express true p = language.express false rest := by
  induction h with
  | first _ => rw [language.express_and_of_isBox_left hbox, hbeside, id_map]
  | second hpartner =>
      rw [language.express_and_of_isBox_right (not_isBox_of_conjunctBoxes_eq_nil hpartner) hbox,
        hbeside, id_map]
  | inLeft left right rest hright hleft ih =>
      rw [language.express_and_of_not_isBox true hleft.not_isBox
          (not_isBox_of_conjunctBoxes_eq_nil hright),
        language.express_false_and, ih, language.express_of_conjunctBoxes_eq_nil hright true]
  | inRight left right rest hleft hright ih =>
      rw [language.express_and_of_not_isBox true (not_isBox_of_conjunctBoxes_eq_nil hleft)
          hright.not_isBox,
        language.express_false_and, ih, language.express_of_conjunctBoxes_eq_nil hleft true]

/-- In the Mapserver dialect the partner of the box gets parentheses of its own, and all else is
written as without the box. -/
theorem mapserver_express (h : Removal box partner p rest) (hbox : box.isBox = true)
    (layer : Layer) {text : String} (ht : (Mapserver.language layer).express true p = .ok text) :
    ∃ before inner after, (Mapserver.language layer).express false partner = .ok inner ∧
      (Mapserver.language layer).express false rest = .ok (before ++ inner ++ after) ∧
      text = before ++ "(" ++ inner ++ ")" ++ after := by
  -- Induction on the way to the box.  At the box the partner gets its parentheses; every
  -- conjunction on the way adds to what stands in front of the partner or behind it.
  induction h generalizing text with
  | first _ =>
      rw [Language.express_and_of_isBox_left _ hbox] at ht
      obtain ⟨inner, hinner, rfl⟩ := exists_of_map_eq_ok ht
      exact ⟨"", inner, "", hinner, by rw [hinner]; simp, by simp [Mapserver.language]⟩
  | second hpartner =>
      rw [Language.express_and_of_isBox_right _ (not_isBox_of_conjunctBoxes_eq_nil hpartner) hbox]
        at ht
      obtain ⟨inner, hinner, rfl⟩ := exists_of_map_eq_ok ht
      exact ⟨"", inner, "", hinner, by rw [hinner]; simp, by simp [Mapserver.language]⟩
  | inLeft left right rest hright hleft ih =>
      rw [Language.express_and_of_not_isBox _ true hleft.not_isBox
          (not_isBox_of_conjunctBoxes_eq_nil hright),
        Language.express_of_conjunctBoxes_eq_nil _ hright true] at ht
      obtain ⟨l, hl, ht⟩ := exists_of_bind_eq_ok ht
      obtain ⟨r, hr, ht⟩ := exists_of_bind_eq_ok ht
      obtain ⟨before, inner, after, hinner, hrest, rfl⟩ := ih hl
      cases ht
      refine ⟨" (" ++ before, inner, after ++ " " ++ Connective.keyword .and ++ " " ++ r ++ ") ",
        hinner, ?_, ?_⟩
      · rw [Language.express_false_and_of_eq_ok hrest hr]
        simp only [Mapserver.language, String.append_assoc]
      · simp only [Mapserver.language, String.append_assoc]
  | inRight left right rest hleft hright ih =>
      rw [Language.express_and_of_not_isBox _ true (not_isBox_of_conjunctBoxes_eq_nil hleft)
          hright.not_isBox,
        Language.express_of_conjunctBoxes_eq_nil _ hleft true] at ht
      obtain ⟨l, hl, ht⟩ := exists_of_bind_eq_ok ht
      obtain ⟨r, hr, ht⟩ := exists_of_bind_eq_ok ht
      obtain ⟨before, inner, after, hinner, hrest, rfl⟩ := ih hr
      cases ht
      refine ⟨" (" ++ l ++ " " ++ Connective.keyword .and ++ " " ++ before, inner, after ++ ") ",
        hinner, ?_, ?_⟩
      · rw [Language.express_false_and_of_eq_ok hl hrest]
        simp only [Mapserver.language, String.append_assoc]
      · simp only [Mapserver.language, String.append_assoc]

end Predicate.Removal

/-! ## Plans -/

/-- What a query with a plan for `p` admits: its rectangle stands for the top bounding box, and its
expression for what remains. -/
def Plan.admits (plan : Plan) (p : Predicate) (truth : Predicate → Bool) : Bool :=
  (plan.rectangle.isNone || p.topBoxNode?.all fun box => box.holds truth) &&
    (plan.expression.isNone || p.withoutTopBox.holds truth)

namespace Layer

/-- The text is the expression of what remains of a predicate, compiled alone.  In the Mapserver
dialect the partner of the top bounding box stands in parentheses of its own. -/
def ExpressesRest (layer : Layer) (engine : Engine) (p : Predicate) (text : String) : Prop :=
  ∃ alone, layer.dialect.compile layer engine p.withoutTopBox = .ok (some alone) ∧
    match layer.dialect, p.topBoxNode?.bind fun _ => p.boxPartner? with
    | .mapserver, some partner => ∃ before inner after,
        Dialect.mapserver.compile layer engine partner = .ok (some inner) ∧
          alone = before ++ inner ++ after ∧ text = before ++ "(" ++ inner ++ ")" ++ after
    | _, _ => text = alone

/-- A plan that selects what a predicate selects. -/
structure Represents (layer : Layer) (engine : Engine) (p : Predicate) (plan : Plan) : Prop where
  /-- The rectangle is that of the top bounding box. -/
  rectangle_eq : plan.rectangle = layer.queryRectangle engine p
  /-- There is a rectangle exactly if there is a top bounding box. -/
  rectangle_isSome : plan.rectangle.isSome = p.topBoxNode?.isSome
  /-- The rest is the predicate itself, or its partner stands where the box was. -/
  rest : (p.topBoxNode? = none ∧ p.withoutTopBox = p) ∨
    (p.topBoxNode? = some p ∧ p.withoutTopBox = p) ∨
      ∃ box partner, p.topBoxNode? = some box ∧ p.boxPartner? = some partner ∧
        Predicate.Removal box partner p p.withoutTopBox
  /-- The predicate says what the box and the rest say together. -/
  holds_eq : ∀ truth, p.holds truth =
    (p.withoutTopBox.holds truth && p.topBoxNode?.all fun box => box.holds truth)
  /-- An expression is that of the rest. -/
  expression : ∀ e, plan.expression = some e →
    e.dialect = layer.dialect ∧ layer.ExpressesRest engine p e.text
  /-- No feature is lost that satisfies the predicate. -/
  admits_of_holds : ∀ truth, p.holds truth = true → plan.admits p truth = true
  /-- With an expression no other feature is admitted. -/
  admits_eq : plan.expression.isSome → ∀ truth, plan.admits p truth = p.holds truth

/-- The text that a layer's language gives a predicate is that of the rest. -/
theorem expressesRest_of_compile {layer : Layer} {engine : Engine} {p : Predicate} {text : String}
    (h : layer.dialect.compile layer engine p = .ok (some text)) :
    layer.ExpressesRest engine p text := by
  unfold ExpressesRest
  rcases p.withoutTopBox_cases with
    ⟨hnone, heq⟩ | ⟨hself, heq⟩ | ⟨box, partner, hnode, hpartner, hrest⟩
  · rw [heq, hnone]
    exact ⟨text, h, by cases layer.dialect <;> rfl⟩
  · rw [heq, hself, Option.bind_some,
      Predicate.boxPartner?_of_isBox (Predicate.isBox_of_topBoxNode? hself)]
    exact ⟨text, h, by cases layer.dialect <;> rfl⟩
  · -- The predicate is expressed with its box left out, and neither the rest nor the partner has
    -- a box that could be left out.
    have hbox := Predicate.isBox_of_topBoxNode? hnode
    rw [Dialect.compile_eq_ok_some_iff, Language.compile_of_topBoxNode? _ hnode] at h
    rw [hnode, Option.bind_some, hpartner]
    simp only [Dialect.compile_eq_ok_some_iff,
      Language.compile_of_conjunctBoxes_eq_nil _ hrest.conjunctBoxes_rest]
    revert h
    cases layer.dialect with
    | mapserver =>
        intro h
        obtain ⟨before, inner, after, hinner, halone, htext⟩ := hrest.mapserver_express hbox layer h
        refine ⟨_, halone, before, inner, after, ?_, rfl, htext⟩
        rw [Language.compile_of_conjunctBoxes_eq_nil _ hrest.conjunctBoxes_partner]
        exact hinner
    | sql =>
        intro h
        rw [hrest.express_eq hbox (Dialect.sql.language layer engine) rfl] at h
        exact ⟨text, h, rfl⟩
    | common =>
        intro h
        rw [hrest.express_eq hbox (Dialect.common.language layer engine) rfl] at h
        exact ⟨text, h, rfl⟩

/-- A plan has the projected rectangle of the top bounding box, and its expression is what the
dialect of the layer gives. -/
theorem plan_eq_ok {layer : Layer} {engine : Engine} {p : Predicate} {plan : Plan}
    (h : layer.plan engine p = .ok plan) :
    plan.rectangle = layer.queryRectangle engine p ∧
      ∀ e, plan.expression = some e → e.dialect = layer.dialect ∧
        layer.dialect.compile layer engine p = .ok (some e.text) := by
  unfold Layer.plan at h
  split at h
  · cases h
    exact ⟨rfl, fun e he => by cases he⟩
  · obtain ⟨text, htext, hplan⟩ := exists_of_bind_eq_ok h
    cases hplan
    refine ⟨rfl, fun e he => ?_⟩
    obtain ⟨written, rfl, rfl⟩ := Option.map_eq_some_iff.1 he
    exact ⟨rfl, htext⟩

theorem queryRectangle_isSome (layer : Layer) (engine : Engine) (p : Predicate) :
    (layer.queryRectangle engine p).isSome = p.topBoxNode?.isSome := by
  rw [queryRectangle, Option.isSome_map, Predicate.topBox?]
  cases hnode : p.topBoxNode? with
  | none => rfl
  | some box => exact (Predicate.topBoxNode?_eq_some_iff.1 hnode).2

/-- Every plan represents its predicate. -/
theorem plan_represents {layer : Layer} {engine : Engine} {p : Predicate} {plan : Plan}
    (h : layer.plan engine p = .ok plan) : layer.Represents engine p plan := by
  obtain ⟨hrectangle, hexpression⟩ := plan_eq_ok h
  have hisSome : plan.rectangle.isSome = p.topBoxNode?.isSome := by
    rw [hrectangle, queryRectangle_isSome]
  refine ⟨hrectangle, hisSome, p.withoutTopBox_cases, p.holds_eq_withoutTopBox, ?_, ?_, ?_⟩
  · intro e he
    exact ⟨(hexpression e he).1, expressesRest_of_compile (hexpression e he).2⟩
  · intro truth htruth
    rw [p.holds_eq_withoutTopBox, Bool.and_eq_true_iff] at htruth
    rw [Plan.admits, htruth.1, htruth.2, Bool.or_true, Bool.or_true, Bool.and_self]
  · intro hsome truth
    -- The rectangle is there exactly if the box is, so that `admits` reads the box in any case.
    have hbox : (plan.rectangle.isNone || p.topBoxNode?.all fun box => box.holds truth) =
        p.topBoxNode?.all fun box => box.holds truth := by
      cases hnode : p.topBoxNode? with
      | none => exact Bool.or_true _
      | some box =>
          rw [hnode] at hisSome
          rw [← Option.not_isSome, hisSome]
          rfl
    rw [Plan.admits, hbox, Option.isNone_eq_false_iff.2 hsome, Bool.false_or, Bool.and_comm,
      p.holds_eq_withoutTopBox]

/-- A plan with both a rectangle and an expression, for a box beside the negation of another. -/
theorem plan_represents_box_beside_negated_box : ∃ plan : Plan,
    (LayerSchema.toLayer { name := "roads", supportsGeos := true }).plan .none
        (.binary .and (.bbox "geom" ⟨0, 0, 1, 1⟩ none)
          (.unary .not (.bbox "geom" ⟨0, 0, 2, 2⟩ none))) = .ok plan ∧
      plan.rectangle.isSome ∧ plan.expression.isSome ∧
      (LayerSchema.toLayer { name := "roads", supportsGeos := true }).Represents .none
        (.binary .and (.bbox "geom" ⟨0, 0, 1, 1⟩ none)
          (.unary .not (.bbox "geom" ⟨0, 0, 2, 2⟩ none))) plan :=
  ⟨_, rfl, rfl, rfl, plan_represents rfl⟩

end Layer

end FilterEncoding
