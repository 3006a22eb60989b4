import FilterEncoding.Expression.Test
import FilterEncoding.Predicate.Boxes

/-!
# Expression languages

A language says how tests, negations and the other connectives are written.  Expressing a filter
follows the tree from left to right and stops at the first obstacle.  A bounding box that the query
applies as its rectangle is left out; its partner in the conjunction stands alone then.
-/

namespace FilterEncoding

/-- A way to write filters as texts of type `τ`. -/
structure Language (τ : Type) where
  test : Test → Except Obstacle τ
  negate : τ → τ
  join : Connective → τ → τ → τ
  /-- How the partner of the bounding box that is left out is written. -/
  besideBox : τ → τ

namespace Language

variable {τ : Type}

open Predicate (Position Side) in
/-- The position of a node below an operand, seen from there. -/
def below (side : Side) : Option Position → Option Position
  | some (first :: rest) => if first = side then some rest else none
  | _ => none

open Predicate (Position) in
/-- The expression of a tree without the bounding box at a position, which is left out of its
conjunction.  Any other bounding box is expressed where it stands.  A negation reads only its first
operand, and another connective without a second one has no expression. -/
def expressWithout (language : Language τ) (lifted : Option Position) :
    Predicate → Except Obstacle τ
  | .unary .not operand => language.negate <$> language.expressWithout (below .left lifted) operand
  | .unary _ operand => do
      let _ ← language.expressWithout (below .left lifted) operand
      throw .inexpressible
  | .binary .not left _ => language.negate <$> language.expressWithout (below .left lifted) left
  | .binary .and left right =>
      if lifted = some [.left] then
        language.besideBox <$> language.expressWithout (below .right lifted) right
      else if lifted = some [.right] then
        language.besideBox <$> language.expressWithout (below .left lifted) left
      else do
        let l ← language.expressWithout (below .left lifted) left
        let r ← language.expressWithout (below .right lifted) right
        pure (language.join .and l r)
  | .binary .or left right => do
      let l ← language.expressWithout (below .left lifted) left
      let r ← language.expressWithout (below .right lifted) right
      pure (language.join .or l r)
  | leaf =>
      match leaf.test? with
      | some test => language.test test
      | none => throw .inexpressible

/-- The expression of a filter whose top bounding box, if it has one, is applied elsewhere. -/
def compile (language : Language τ) (p : Predicate) : Except Obstacle τ :=
  language.expressWithout p.topBoxPosition? p

end Language

end FilterEncoding
