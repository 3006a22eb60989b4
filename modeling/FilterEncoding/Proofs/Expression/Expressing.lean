import FilterEncoding.Expression.Compile
import FilterEncoding.Proofs.Expression.Lifting
import FilterEncoding.Proofs.Readers

/-!
# Expressing in any language

What holds of expressions whatever the language is.

* `Language.compile_induction` is the induction over an expression that exists: a property of
  predicates and texts that the tests have and the four ways to combine texts keep holds of every
  predicate with its expression.
* `Language.Translation.compile` carries a translation of the parts of a language over to whole
  expressions.  It is what relates a language to another that writes the same and says more.

Nothing here is about the texts of one of the dialects.
-/

namespace FilterEncoding

namespace Predicate

/-- The tests that an expression consists of, from left to right.  A negation reads only its first
operand. -/
def tests : Predicate → List Test
  | unary _ operand => operand.tests
  | binary .not left _ => left.tests
  | binary .and left right => left.tests ++ right.tests
  | binary .or left right => left.tests ++ right.tests
  | leaf => leaf.test?.toList

theorem tests_of_test? {leaf : Predicate} {test : Test} (h : leaf.test? = some test) :
    leaf.tests = [test] := by
  cases leaf with
  | unary op operand => simp [test?] at h
  | binary op left right => simp [test?] at h
  | _ => simp [tests, h]

theorem test?_like {o : LikeOptions} {m : Metacharacters} (h : o.metacharacters? = some m)
    (name pattern : String) (ignoreCase : Bool) :
    (comparison .like (property name) (literal (some pattern) ignoreCase) (some o)).test? =
      some (.like name pattern m o.ignoreCase) := by
  rw [test?, h, Option.map_some]

theorem tests_binary {op : Connective} (hop : op ≠ .not) (left right : Predicate) :
    (binary op left right).tests = left.tests ++ right.tests := by
  cases op with
  | not => exact absurd rfl hop
  | and => rw [tests]
  | or => rw [tests]

/-- The test of a bounding box is a spatial one. -/
theorem spatial_of_mem_tests {box : Predicate} (hbox : box.isBox = true) {t : Test}
    (ht : t ∈ box.tests) :
    (∃ rectangle crs, t = .inBox rectangle crs) ∨
      ∃ op shape crs distance, t = .toShape op shape crs distance := by
  cases box with
  | spatial op left right =>
      cases right with
      | box rectangle crs =>
          cases List.mem_singleton.1 ht
          exact .inl ⟨rectangle, crs, rfl⟩
      | geometry shape crs distance =>
          cases List.mem_singleton.1 ht
          exact .inr ⟨op, shape, crs, distance, rfl⟩
      | _ => cases ht
  | _ => cases hbox

end Predicate

namespace Language

variable {τ υ : Type}

/-! ## Induction over expressions -/

/-- The induction over a predicate that has an expression. -/
theorem compile_induction (language : Language τ) (motive : Predicate → τ → Prop)
    (onTest : ∀ leaf test x, leaf.test? = some test → language.test test = .ok x → motive leaf x)
    (onUnary : ∀ operand x, motive operand x →
      motive (.unary .not operand) (language.negate x))
    (onNegation : ∀ left right x, motive left x →
      motive (.binary .not left right) (language.negate x))
    (onJoin : ∀ op left right x y, op ≠ Connective.not → motive left x → motive right y →
      motive (.binary op left right) (language.join op x y))
    (onBoxFirst : ∀ box partner x, box.isBox = true → motive partner x →
      motive (.binary .and box partner) (language.besideBox x))
    (onBoxSecond : ∀ partner box x, box.isBox = true → motive partner x →
      motive (.binary .and partner box) (language.besideBox x))
    {p : Predicate} {x : τ} (h : language.compile p = .ok x) : motive p x := by
  rw [compile_eq_express] at h
  -- What is below a connective is expressed with boxes left out or not, so that the induction is
  -- over both.
  generalize p.topBoxNode?.isSome = lifting at h
  fun_induction Language.express language lifting p generalizing x with
  | case1 lifting operand ih =>
      obtain ⟨inner, hinner, rfl⟩ := exists_of_map_eq_ok h
      exact onUnary operand inner (ih hinner)
  | case2 lifting op operand hop ih =>
      -- A conjunction or disjunction of one operand has no expression.
      obtain ⟨inner, -, hthrow⟩ := exists_of_bind_eq_ok h
      cases hthrow
  | case3 lifting left right ih =>
      obtain ⟨inner, hinner, rfl⟩ := exists_of_map_eq_ok h
      exact onNegation left right inner (ih hinner)
  | case4 lifting box partner hbox ih =>
      obtain ⟨inner, hinner, rfl⟩ := exists_of_map_eq_ok h
      exact onBoxFirst box partner inner (Bool.and_eq_true_iff.1 hbox).2 (ih hinner)
  | case5 lifting partner box _ hbox ih =>
      obtain ⟨inner, hinner, rfl⟩ := exists_of_map_eq_ok h
      exact onBoxSecond partner box inner (Bool.and_eq_true_iff.1 hbox).2 (ih hinner)
  | case6 lifting left right _ _ ihLeft ihRight =>
      obtain ⟨l, hl, hrest⟩ := exists_of_bind_eq_ok h
      obtain ⟨r, hr, hjoin⟩ := exists_of_bind_eq_ok hrest
      cases hjoin
      exact onJoin .and left right l r (by decide) (ihLeft hl) (ihRight hr)
  | case7 lifting left right ihLeft ihRight =>
      obtain ⟨l, hl, hrest⟩ := exists_of_bind_eq_ok h
      obtain ⟨r, hr, hjoin⟩ := exists_of_bind_eq_ok hrest
      cases hjoin
      exact onJoin .or left right l r (by decide) (ihLeft hl) (ihRight hr)
  | case8 lifting leaf _ _ _ _ _ test htest => exact onTest leaf test x htest h
  | case9 lifting leaf _ _ _ _ _ _ => cases h

/-- A filter that is one test is expressed as the test. -/
theorem compile_of_test? (language : Language τ) {leaf : Predicate} {test : Test}
    (h : leaf.test? = some test) : language.compile leaf = language.test test := by
  cases leaf with
  | unary op operand => simp [Predicate.test?] at h
  | binary op left right => simp [Predicate.test?] at h
  | _ => simp [compile, expressWithout, h]

/-! ## Translations -/

/-- A map of texts that takes the parts of one language to those of another. -/
structure Translation (f : τ → υ) (source : Language τ) (target : Language υ) : Prop where
  test : ∀ t, f <$> source.test t = target.test t
  negate : ∀ x, f (source.negate x) = target.negate (f x)
  join : ∀ op x y, f (source.join op x y) = target.join op (f x) (f y)
  besideBox : ∀ x, f (source.besideBox x) = target.besideBox (f x)

/-- A translation takes expressions to expressions, and obstacles stay what they are. -/
theorem Translation.express {f : τ → υ} {source : Language τ} {target : Language υ}
    (h : Translation f source target) (lifting : Bool) (p : Predicate) :
    f <$> source.express lifting p = target.express lifting p := by
  fun_induction Language.express source lifting p with
  | case1 lifting operand ih =>
      rw [Language.express, ← ih, Functor.map_map, Functor.map_map]
      simp only [h.negate]
  | case2 lifting op operand hop ih =>
      rw [Language.express.eq_2 _ _ _ _ hop, ← ih]
      cases source.express false operand <;> rfl
  | case3 lifting left right ih =>
      rw [Language.express, ← ih, Functor.map_map, Functor.map_map]
      simp only [h.negate]
  | case4 lifting box partner hbox ih =>
      rw [Language.express, if_pos hbox, ← ih, Functor.map_map, Functor.map_map]
      simp only [h.besideBox]
  | case5 lifting partner box hfirst hbox ih =>
      rw [Language.express, if_neg hfirst, if_pos hbox, ← ih, Functor.map_map, Functor.map_map]
      simp only [h.besideBox]
  | case6 lifting left right hfirst hsecond ihLeft ihRight =>
      rw [Language.express, if_neg hfirst, if_neg hsecond, ← ihLeft, ← ihRight]
      cases source.express lifting left with
      | error e => rfl
      | ok l =>
          cases source.express lifting right with
          | error e => rfl
          | ok r => exact congrArg Except.ok (h.join .and l r)
  | case7 lifting left right ihLeft ihRight =>
      rw [Language.express, ← ihLeft, ← ihRight]
      cases source.express false left with
      | error e => rfl
      | ok l =>
          cases source.express false right with
          | error e => rfl
          | ok r => exact congrArg Except.ok (h.join .or l r)
  | case8 lifting leaf h₁ h₂ h₃ h₄ h₅ test htest =>
      rw [Language.express.eq_6 _ _ _ h₁ h₂ h₃ h₄ h₅, htest]
      exact h.test test
  | case9 lifting leaf h₁ h₂ h₃ h₄ h₅ htest =>
      rw [Language.express.eq_6 _ _ _ h₁ h₂ h₃ h₄ h₅, htest]
      rfl

theorem Translation.compile {f : τ → υ} {source : Language τ} {target : Language υ}
    (h : Translation f source target) (p : Predicate) :
    f <$> source.compile p = target.compile p := by
  rw [compile_eq_express, compile_eq_express]
  exact h.express _ p

/-- What a translated language says was said by the source before. -/
theorem Translation.exists_compile {f : τ → υ} {source : Language τ} {target : Language υ}
    (h : Translation f source target) {p : Predicate} {text : υ}
    (ht : target.compile p = .ok text) : ∃ x, source.compile p = .ok x ∧ f x = text := by
  rw [← h.compile] at ht
  exact exists_of_map_eq_ok ht

end Language

open FilterEncoding.Geometry (Engine) in
/-- A dialect has an expression exactly if its language has. -/
theorem Dialect.compile_eq_ok_some_iff {d : Dialect} {layer : Layer} {engine : Engine}
    {p : Predicate} {text : String} :
    d.compile layer engine p = .ok (some text) ↔
      (d.language layer engine).compile p = .ok text := by
  unfold Dialect.compile
  constructor
  · intro h
    split at h
    · next text' htext =>
      cases h
      exact htext
    · cases h
    · cases h
  · intro h
    rw [h]

end FilterEncoding
