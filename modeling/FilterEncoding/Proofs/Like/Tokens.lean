import FilterEncoding.Like.Pattern
import Mathlib.Data.List.Basic

/-!
# Tokens of patterns

Where an escape character takes the next character with it does not depend on the other
metacharacters.  What a pattern stands for is settled token by token, so that patterns with
different metacharacters can be compared along their tokens.

* `Like.flatMap_chars_tokens`, `Like.tokens_flatMap_chars` — tokens and the characters that they are
  written with.
* `Like.items_eq_flatMap_tokens` — the items of a pattern are those of its tokens.
-/

namespace FilterEncoding

/-- No two metacharacters are the same. -/
structure Metacharacters.Distinct (m : Metacharacters) : Prop where
  wildcard_ne_single : m.wildcard ≠ m.single
  wildcard_ne_escape : m.wildcard ≠ m.escape
  single_ne_escape : m.single ≠ m.escape

namespace Like

/-- A token of a pattern. -/
inductive Token where
  /-- A character that neither escapes another nor is escaped. -/
  | plain (c : Char)
  /-- A character behind an escape character. -/
  | escaped (d : Char)
  /-- An escape character at the end. -/
  | loneEscape
  deriving Repr, DecidableEq

/-- The tokens of a pattern. -/
def tokens (escape : Char) : List Char → List Token
  | [] => []
  | [c] => if c = escape then [.loneEscape] else [.plain c]
  | c :: d :: cs =>
      if c = escape then .escaped d :: tokens escape cs else .plain c :: tokens escape (d :: cs)

/-- The characters that a token is written with. -/
def Token.chars (escape : Char) : Token → List Char
  | .plain c => [c]
  | .escaped d => [escape, d]
  | .loneEscape => [escape]

/-- What a token stands for. -/
def Token.items (m : Metacharacters) : Token → List Item
  | .plain c => [.ofChar m c]
  | .escaped d => [.char d]
  | .loneEscape => []

variable {m : Metacharacters} {escape : Char}

theorem Item.ofChar_wildcard (m : Metacharacters) : Item.ofChar m m.wildcard = .run :=
  if_pos rfl

theorem Item.ofChar_single (hm : m.Distinct) : Item.ofChar m m.single = .one := by
  rw [Item.ofChar, if_neg hm.wildcard_ne_single.symm, if_pos rfl]

theorem Item.ofChar_of_ne {c : Char} (hwildcard : c ≠ m.wildcard) (hsingle : c ≠ m.single) :
    Item.ofChar m c = .char c := by
  rw [Item.ofChar, if_neg hwildcard, if_neg hsingle]

theorem tokens_escape (d : Char) (cs : List Char) :
    tokens escape (escape :: d :: cs) = .escaped d :: tokens escape cs := by
  rw [tokens, if_pos rfl]

theorem tokens_cons_of_ne {c : Char} (hc : c ≠ escape) (cs : List Char) :
    tokens escape (c :: cs) = .plain c :: tokens escape cs := by
  cases cs with
  | nil => exact if_neg hc
  | cons d cs => rw [tokens, if_neg hc]

/-- The tokens of a pattern are written as the pattern. -/
theorem flatMap_chars_tokens (escape : Char) (cs : List Char) :
    (tokens escape cs).flatMap (Token.chars escape) = cs := by
  fun_induction tokens escape cs with
  | case1 => rfl
  | case2 => rfl
  | case3 c _ => rfl
  | case4 d cs ih => rw [List.flatMap_cons, ih]; rfl
  | case5 c d cs _ ih => rw [List.flatMap_cons, ih]; rfl

/-- A plain character is no escape character. -/
theorem ne_of_plain_mem_tokens {c : Char} {cs : List Char} (h : .plain c ∈ tokens escape cs) :
    c ≠ escape := by
  fun_induction tokens escape cs with
  | case1 => cases h
  | case2 => cases List.mem_singleton.1 h
  | case3 d hd =>
      cases List.mem_singleton.1 h
      exact hd
  | case4 d cs ih => exact ih ((List.mem_cons.1 h).resolve_left nofun)
  | case5 d e cs hd ih =>
      rcases List.mem_cons.1 h with hplain | htail
      · cases hplain
        exact hd
      · exact ih htail

/-- The characters of a token are characters of the pattern. -/
theorem mem_of_mem_tokens {t : Token} {c : Char} {cs : List Char} (ht : t ∈ tokens escape cs)
    (hc : c ∈ t.chars escape) : c ∈ cs := by
  rw [← flatMap_chars_tokens escape cs]
  exact List.mem_flatMap_of_mem ht hc

/-- A list of tokens is read back, if no plain character is the escape character and no escape
character stands alone. -/
theorem tokens_flatMap_chars {ts : List Token} (hplain : ∀ c, .plain c ∈ ts → c ≠ escape)
    (hlone : .loneEscape ∉ ts) : tokens escape (ts.flatMap (Token.chars escape)) = ts := by
  induction ts with
  | nil => rfl
  | cons t ts ih =>
      have hrest : tokens escape (ts.flatMap (Token.chars escape)) = ts :=
        ih (fun c hc => hplain c (List.mem_cons_of_mem t hc))
          (fun h => hlone (List.mem_cons_of_mem t h))
      rw [List.flatMap_cons]
      cases t with
      | plain c =>
          exact (tokens_cons_of_ne (hplain c List.mem_cons_self) _).trans (congrArg _ hrest)
      | escaped d => exact (tokens_escape d _).trans (congrArg _ hrest)
      | loneEscape => exact absurd List.mem_cons_self hlone

theorem items_eq_flatMap_tokens (m : Metacharacters) (cs : List Char) :
    items m cs = (tokens m.escape cs).flatMap (Token.items m) := by
  fun_induction items m cs with
  | case1 => rfl
  | case2 => rw [tokens, if_pos rfl]; rfl
  | case3 c hc => rw [tokens, if_neg hc]; rfl
  | case4 d cs ih => rw [tokens_escape, List.flatMap_cons, ← ih]; rfl
  | case5 c d cs hc ih => rw [tokens_cons_of_ne hc, List.flatMap_cons, ← ih]; rfl

theorem ofChar_mem_items {c : Char} {cs : List Char} (h : .plain c ∈ tokens m.escape cs) :
    Item.ofChar m c ∈ items m cs := by
  rw [items_eq_flatMap_tokens]
  exact List.mem_flatMap.2 ⟨.plain c, h, List.mem_singleton_self _⟩

end Like

end FilterEncoding
