import FilterEncoding.Proofs.Like.RegularExpression
import FilterEncoding.Proofs.Like.Tokens
import FilterEncoding.Proofs.Reading.Literal

/-!
# Patterns in the common dialect

A pattern is written as a regular expression inside a quoted string, so that its backslashes are
read twice: by the string, where a backslash counts only in front of a backslash or quote, and by
the expression.

* `Common.patternChars_eq` — the body of the expression, item by item.
* `Common.decodes_itemChars` — what the string says of an item.
* `Common.compile_like_read` — the expression that is written and the one for matching in the
  process have the same items and accept the same texts.
-/

namespace FilterEncoding

open FilterEncoding.Geometry (Engine)
open Like (Item Reads Token items tokens)

/-! ## Escape characters in front of metacharacters -/

namespace Like

/-- Each escape character stands in front of a metacharacter. -/
structure EscapesMetacharacters (m : Metacharacters) (cs : List Char) : Prop where
  complete : .loneEscape ∉ tokens m.escape cs
  escaped : ∀ d, .escaped d ∈ tokens m.escape cs →
    d = m.wildcard ∨ d = m.single ∨ d = m.escape

namespace EscapesMetacharacters

variable {m : Metacharacters} {c d : Char} {cs : List Char}

theorem of_cons (hc : c ≠ m.escape) (h : EscapesMetacharacters m (c :: cs)) :
    EscapesMetacharacters m cs := by
  obtain ⟨hcomplete, hescaped⟩ := h
  rw [tokens_cons_of_ne hc] at hcomplete hescaped
  exact ⟨List.not_mem_of_not_mem_cons hcomplete,
    fun d hd => hescaped d (List.mem_cons_of_mem _ hd)⟩

theorem of_escape (h : EscapesMetacharacters m (m.escape :: d :: cs)) :
    (d = m.wildcard ∨ d = m.single ∨ d = m.escape) ∧ EscapesMetacharacters m cs := by
  obtain ⟨hcomplete, hescaped⟩ := h
  rw [tokens_escape] at hcomplete hescaped
  exact ⟨hescaped d List.mem_cons_self, List.not_mem_of_not_mem_cons hcomplete,
    fun e he => hescaped e (List.mem_cons_of_mem _ he)⟩

theorem not_loneEscape : ¬EscapesMetacharacters m [m.escape] := fun h =>
  h.complete (by rw [tokens, if_pos rfl]; exact List.mem_singleton_self _)

end EscapesMetacharacters

end Like

namespace Common

open Like (EscapesMetacharacters)
open Reading (Decodes literal?)
open Regex (anchored backslashedIn itemChars read?_anchored symbols?_items)

variable {m : Metacharacters}

/-! ## Writing -/

theorem patternChar_eq (hm : m.Distinct) (c : Char) :
    patternChar m c = itemChars literalChar (.ofChar m c) := by
  unfold patternChar Item.ofChar
  by_cases hsingle : c = m.single
  · have hwildcard : c ≠ m.wildcard := fun h => hm.wildcard_ne_single (h ▸ hsingle)
    rw [if_pos hsingle, if_neg hwildcard, if_pos hsingle]
    rfl
  · rw [if_neg hsingle, if_neg hsingle]
    by_cases hwildcard : c = m.wildcard
    · rw [if_pos hwildcard, if_pos hwildcard]
      rfl
    · rw [if_neg hwildcard, if_neg hwildcard]
      rfl

theorem escapes_escape (hm : m.Distinct) {d : Char}
    (hd : d = m.wildcard ∨ d = m.single ∨ d = m.escape) : escapes m m.escape d = true := by
  have hsingle : m.escape ≠ m.single := hm.single_ne_escape.symm
  simp only [escapes, Bool.and_eq_true, Bool.or_eq_true, decide_eq_true_eq, bne_iff_ne]
  exact ⟨⟨trivial, hsingle⟩, by tauto⟩

theorem escapes_of_ne {c : Char} (hc : c ≠ m.escape) (d : Char) : escapes m c d = false := by
  simp [escapes, hc]

/-- A pattern is written item by item, although its characters are tried in another order. -/
theorem patternChars_eq (hm : m.Distinct) {cs : List Char} (h : EscapesMetacharacters m cs) :
    patternChars m cs = (items m cs).flatMap (itemChars literalChar) := by
  fun_induction items m cs with
  | case1 => rfl
  | case2 => exact absurd h EscapesMetacharacters.not_loneEscape
  | case3 c hc =>
      rw [patternChars, patternChar_eq hm, List.flatMap_singleton]
  | case4 d cs ih =>
      obtain ⟨hd, hcs⟩ := h.of_escape
      rw [patternChars, if_pos (escapes_escape hm hd), ih hcs]
      rfl
  | case5 c d cs hc ih =>
      rw [patternChars, escapes_of_ne hc, if_neg Bool.false_ne_true, ih (h.of_cons hc),
        patternChar_eq hm]
      rfl

/-! ## The string -/

/-- What two characters of a string stand for together: a backslash counts only in front of a
backslash or quote. -/
def pair? (c d : Char) : Option Char :=
  if c = '\\' ∧ (d = '\\' ∨ d = '"') then some d else none

/-- The characters that keep a backslash behind the string. -/
def expressionSpecials : List Char :=
  patternSpecials.erase '"'

theorem pair?_of_ne {c : Char} (hc : c ≠ '\\') (d : Char) : pair? c d = none :=
  if_neg fun h => hc h.1

theorem decodes_ordinary {c : Char} (hquote : c ≠ '"') (hbackslash : c ≠ '\\') :
    Decodes pair? '"' [c] [c] :=
  Reading.decodes_char hquote (pair?_of_ne hbackslash)

theorem decodes_literalChar (c : Char) :
    Decodes pair? '"' (literalChar c) (backslashedIn expressionSpecials c) := by
  unfold literalChar
  split
  · next hbackslash =>
    subst hbackslash
    have hpair : Decodes pair? '"' ['\\', '\\'] ['\\'] := Reading.decodes_pair rfl
    exact hpair.append hpair
  · next hbackslash =>
    by_cases hquote : c = '"'
    · subst hquote
      exact Reading.decodes_pair rfl
    · have hspecial : expressionSpecials.contains c = patternSpecials.contains c := by
        rw [Bool.eq_iff_iff, List.contains_iff_mem, List.contains_iff_mem]
        exact List.mem_erase_of_ne hquote
      have hordinary := decodes_ordinary hquote hbackslash
      rw [backslashedIn, hspecial]
      split
      · exact hordinary.cons (by decide) (if_neg fun h => h.2.elim hbackslash hquote)
      · exact hordinary

theorem decodes_itemChars (item : Item) :
    Decodes pair? '"' (itemChars literalChar item)
      (itemChars (backslashedIn expressionSpecials) item) := by
  have hany : Decodes pair? '"' ['.'] ['.'] := decodes_ordinary (by decide) (by decide)
  cases item with
  | char c => exact decodes_literalChar c
  | one => exact hany
  | run => exact hany.append (decodes_ordinary (by decide) (by decide))

/-! ## The expression -/

/-- The expression of some items, as the string says it. -/
def expression (items : List Item) : String :=
  "^" ++ String.ofList (items.flatMap (itemChars (backslashedIn expressionSpecials))) ++ "$"

theorem read?_expression (items : List Item) :
    Regex.read? (expression items) = some ⟨false, anchored items⟩ := by
  have hwrite : ∀ c cs, Regex.symbols? (backslashedIn expressionSpecials c ++ cs) =
      (Regex.symbols? cs).map (.literal c :: ·) :=
    Regex.symbols?_backslashedIn (by decide) (by decide)
  exact read?_anchored false (symbols?_items hwrite items)

/-- What the string says is the expression of the items. -/
theorem decodes_regex (hm : m.Distinct) {pattern : String} (hpattern : pattern ≠ "")
    (h : EscapesMetacharacters m pattern.toList) :
    Decodes pair? '"' (regex m pattern).toList (expression (items m pattern.toList)).toList := by
  have hstart : Decodes pair? '"' ['^'] ['^'] := decodes_ordinary (by decide) (by decide)
  have hend : Decodes pair? '"' ['$'] ['$'] := decodes_ordinary (by decide) (by decide)
  have hbody : Decodes pair? '"' (patternChars m pattern.toList)
      ((items m pattern.toList).flatMap (itemChars (backslashedIn expressionSpecials))) := by
    rw [patternChars_eq hm h]
    exact Decodes.flatMap fun item _ => decodes_itemChars item
  rw [regex, if_neg hpattern, expression]
  simp only [String.toList_append, String.toList_ofList]
  exact (hstart.append hbody).append hend

/-- A pattern whose escape characters stand in front of metacharacters is written with the items
that its expression for matching in the process has, between the same anchors.  Letter case, which
the operator says here and a flag of the expression there, is disregarded alike, so that the same
texts are accepted. -/
theorem compile_like_read {o : LikeOptions} {pattern : String} (ho : o.Declares m)
    (hm : m.Distinct) (hpattern : pattern ≠ "")
    (hescapes : EscapesMetacharacters m pattern.toList) (layer : Layer) (engine : Engine)
    (name : String) (ignoreCase : Bool) :
    ∃ items behind written expression, Reads m pattern.toList items ∧
      Dialect.common.compile layer engine (.comparison .like (.property name)
          (.literal (some pattern) ignoreCase) (some o)) =
        .ok (some ("(\"[" ++ name ++ "]\" " ++ (if o.ignoreCase then "~*" else "~") ++ " \"" ++
          behind)) ∧
      literal? pair? '"' behind.toList = some (written.toList, ")".toList) ∧
      Regex.read? written = some ⟨false, anchored items⟩ ∧
      o.regex? pattern = some expression ∧
      Regex.read? expression = some ⟨o.ignoreCase, anchored items⟩ ∧
      ∀ text : String,
        Regex.Matches ⟨o.ignoreCase, anchored items⟩ text.toList ↔
          o.accepts? pattern text = some true := by
  have hmeta : o.metacharacters? = some m := LikeOptions.metacharacters?_eq_some_iff.2 ho
  refine ⟨items m pattern.toList, regex m pattern ++ "\")", expression (items m pattern.toList),
    Like.regex o.ignoreCase (items m pattern.toList), Like.reads_items m _, ?_, ?_,
    read?_expression _, ?_, Like.read?_regex _ _, fun text => ?_⟩
  · rw [Dialect.compile_eq_ok_some_iff,
      Language.compile_of_test? _ (Predicate.test?_like hmeta name pattern ignoreCase),
      ← String.append_assoc]
    rfl
  · rw [String.toList_append]
    exact (decodes_regex hm hpattern hescapes).closed fun _ _ => pair?_of_ne (by decide) _
  · rw [LikeOptions.regex?, hmeta, Option.map_some]
  · rw [Regex.matches_anchored_iff, ← Like.accepts_iff, LikeOptions.accepts?, hmeta,
      Option.map_some, Option.some.injEq]

/-- A backslash next to a plus sign, with metacharacters that have another meaning in
expressions. -/
theorem compile_like_read_backslash_beside_plus :
    LikeOptions.Declares ⟨".", "*", "!", false⟩ ⟨'.', '*', '!'⟩ ∧
      Metacharacters.Distinct ⟨'.', '*', '!'⟩ ∧
      EscapesMetacharacters ⟨'.', '*', '!'⟩ "\\+.!.\"*".toList ∧
      Dialect.common.compile (LayerSchema.toLayer { name := "roads" }) Engine.none
          (.comparison .like (.property "NAME") (.literal (some "\\+.!.\"*") false)
            (some ⟨".", "*", "!", false⟩)) =
        .ok (some "(\"[NAME]\" ~ \"^\\\\\\\\\\+.*\\.\\\".$\")") ∧
      ∃ items, Reads ⟨'.', '*', '!'⟩ "\\+.!.\"*".toList items ∧
        LikeOptions.accepts? ⟨".", "*", "!", false⟩ "\\+.!.\"*" "\\+xy.\"z" = some true ∧
        Regex.Matches ⟨false, anchored items⟩ "\\+xy.\"z".toList := by
  have ho : LikeOptions.Declares ⟨".", "*", "!", false⟩ ⟨'.', '*', '!'⟩ := ⟨rfl, rfl, rfl⟩
  have hm : Metacharacters.Distinct ⟨'.', '*', '!'⟩ := ⟨by decide, by decide, by decide⟩
  have hescapes : EscapesMetacharacters ⟨'.', '*', '!'⟩ "\\+.!.\"*".toList :=
    ⟨by decide, fun d hd => .inl (by simpa [tokens] using hd)⟩
  obtain ⟨items, _, _, _, hitems, -, -, -, -, -, hmatches⟩ :=
    compile_like_read ho hm (by decide) hescapes (LayerSchema.toLayer { name := "roads" })
      Engine.none "NAME" false
  have haccepts :
      LikeOptions.accepts? ⟨".", "*", "!", false⟩ "\\+.!.\"*" "\\+xy.\"z" = some true := by
    decide +kernel
  exact ⟨ho, hm, hescapes, rfl, items, hitems, haccepts, (hmatches _).2 haccepts⟩

end Common

end FilterEncoding
