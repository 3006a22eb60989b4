import FilterEncoding.Expression.Sql
import FilterEncoding.Layer.Schema
import FilterEncoding.Proofs.Expression.Draft
import FilterEncoding.Proofs.Number.Characters
import Mathlib.Data.List.Basic

/-!
# Drafts of the SQL dialect

The SQL dialect written as drafts.  The draft of an attribute name is a parameter, since a layer may
quote its names in any way; `columnDraft` is the token that the default rules write.  `translation`
says that the drafts are drafts of the texts that the dialect writes.
-/

namespace FilterEncoding

/-- Doubling does not touch a text without the doubled character. -/
theorem doubled_eq_self {c : Char} {s : String} (h : c ∉ s.toList) : doubled c s = s := by
  have hsingle : ∀ x ∈ s.toList, (if x = c then [x, x] else [x]) = [x] := fun x hx =>
    if_neg fun hxc : x = c => h (hxc ▸ hx)
  rw [doubled, List.flatMap_congr hsingle, List.flatMap_singleton', String.ofList_toList]

namespace Sql

open Reading

/-- A string, in which a quote is written twice. -/
def stringQuote : Quote := ⟨'\'', '\'', .doubled⟩

/-- An attribute name, in which a double quote is written twice. -/
def identifierQuote : Quote := ⟨'"', '"', .doubled⟩

def quotes : List Quote := [stringQuote, identifierQuote]

def columnDraft (name : String) : Fragment :=
  .token identifierQuote (.name name) (doubled '"' name)

section Drafts

variable (layer : Layer) (column : String → Fragment)

def compareDraft (r : Relation) (name : String) (value : Option String) (ignoreCase : Bool) :
    List Fragment :=
  let isString := Dialect.sql.isString layer name value
  let operand := valueDraft stringQuote isString (value.getD "")
    ((value.map layer.escapeSqlLiteral).getD "") (value.getD "")
  if value.isSome && isString && ignoreCase && r = .eq then
    group " " [words "lower(", column name, words ") = lower(", operand, words ") "] " "
  else group " " [column name, words (relation r ++ " "), operand] " "

/-- A bound of a range or an id, which is escaped even if it is a number. -/
def escapedDraft (isString : Bool) (value : String) : Fragment :=
  valueDraft stringQuote isString value (layer.escapeSqlLiteral value)
    (layer.escapeSqlLiteral value)

def betweenDraft (name lower upper : String) : List Fragment :=
  let isString := Dialect.sql.isStringRange layer name lower upper
  group " " [column name, words " >= ", escapedDraft layer isString lower, words " AND ",
    column name, words " <= ", escapedDraft layer isString upper] ""

def escapeDraft (connection : Connection) (escape : Char) : List Fragment :=
  if connection = .ogr then []
  else if escape = '\\' then
    [words (if connection = .postGis then " escape E" else " escape "),
      .token stringQuote (.escape escape) "\\\\"]
  else [words " escape ", .token stringQuote (.escape escape) (String.singleton escape)]

def likeDraft (name pattern : String) (m : Metacharacters) (ignoreCase : Bool) :
    Except Obstacle (List Fragment) :=
  if m.escape = '\'' then .error (.unsafeEscape m.escape)
  else
    .ok (group " " (column name :: words (likeOperator layer.connection ignoreCase) ::
      .token stringQuote (.pattern pattern) (String.ofList (patternChars m pattern.toList)) ::
      escapeDraft layer.connection m.escape) " ")

def compareIdDraft (name : String) (isString : Bool) (id : String) : List Fragment :=
  if isString && (layer.connection = .ogr ∨ layer.connection = .postGis) then
    group "" [words "CAST(", column name, words " AS CHARACTER(255)) = ",
      escapedDraft layer isString id] ""
  else group "" [column name, words " = ", escapedDraft layer isString id] ""

def testDraft : Test → Except Obstacle (List Fragment)
  | .relation r name value ignoreCase => .ok (compareDraft layer column r name value ignoreCase)
  | .between name lower upper => .ok (betweenDraft layer column name lower upper)
  | .like name pattern m ignoreCase => likeDraft layer column name pattern m ignoreCase
  | .featureIds tokens => featureIdsDraft .sql layer (compareIdDraft layer column) tokens
  | .inBox _ _ | .toShape _ _ _ _ => .error .inexpressible

/-- The SQL dialect as drafts, for a layer with any rules of quoting and escaping. -/
def draftFor : Language (List Fragment) where
  test := testDraft layer column
  negate := fun operand => group " " (words "NOT " :: operand) " "
  join := fun op left right =>
    group " " (left ++ words (" " ++ op.keyword ++ " ") :: right) " "
  besideBox := id

end Drafts

/-- The SQL dialect as drafts. -/
def draft (s : LayerSchema) : Language (List Fragment) :=
  draftFor s.toLayer columnDraft

/-! ## Numbers -/

theorem doubled_of_isDecimal {v : String} (h : Number.isDecimal v = true) :
    doubled '\'' v = v := by
  refine doubled_eq_self fun hmem => ?_
  have hquote := Number.isNumberChar_of_isDecimal h hmem
  revert hquote
  decide

/-! ## The text of a draft -/

@[simp] theorem text_columnDraft (name : String) :
    (columnDraft name).text = quotedIdentifier name := rfl

theorem render_escapeDraft (connection : Connection) (escape : Char) :
    render (escapeDraft connection escape) = escapeClause connection escape := by
  unfold escapeDraft escapeClause
  split
  · rfl
  · split
    · split <;> rfl
    · apply String.toList_inj.1
      simp [stringQuote]

section Texts

variable {layer : Layer} {column : String → Fragment}
  (hcolumn : ∀ name, (column name).text = layer.quoteIdentifier name)
include hcolumn

theorem render_compareDraft (r : Relation) (name : String) (value : Option String)
    (ignoreCase : Bool) :
    render (compareDraft layer column r name value ignoreCase) =
      compare layer r name value ignoreCase := by
  apply String.toList_inj.1
  unfold compareDraft compare
  cases value with
  | none => simp [Dialect.isString, stringQuote, hcolumn]
  | some v =>
      cases hstring : Dialect.sql.isString layer name (some v) with
      | false => simp [hcolumn]
      | true =>
          by_cases hlower : (ignoreCase && r = .eq) = true
          · simp [hlower, stringQuote, hcolumn]
          · simp [hlower, stringQuote, hcolumn]

theorem render_betweenDraft (name lower upper : String) :
    render (betweenDraft layer column name lower upper) = between layer name lower upper := by
  apply String.toList_inj.1
  unfold betweenDraft between escapedDraft
  cases hstring : Dialect.sql.isStringRange layer name lower upper with
  | true => simp [stringQuote, hcolumn]
  | false => simp [hcolumn]

theorem render_likeDraft (name pattern : String) (m : Metacharacters) (ignoreCase : Bool) :
    render <$> likeDraft layer column name pattern m ignoreCase =
      like layer name pattern m ignoreCase := by
  unfold likeDraft like
  split
  · rfl
  · refine congrArg Except.ok (String.toList_inj.1 ?_)
    simp [render_escapeDraft, stringQuote, hcolumn]

theorem render_compareIdDraft (name : String) (isString : Bool) (id : String) :
    render (compareIdDraft layer column name isString id) =
      compareId layer (layer.quoteIdentifier name) isString id := by
  apply String.toList_inj.1
  unfold compareIdDraft compareId escapedDraft
  cases isString with
  | false => simp [hcolumn]
  | true =>
      by_cases hcast : layer.connection = .ogr ∨ layer.connection = .postGis
      · simp [hcast, stringQuote, hcolumn]
      · simp [hcast, stringQuote, hcolumn]

/-- The drafts are drafts of the dialect. -/
theorem translation :
    Language.Translation render (draftFor layer column) (language layer) where
  test t := by
    cases t with
    | relation r name value ignoreCase =>
        exact congrArg Except.ok (render_compareDraft hcolumn r name value ignoreCase)
    | between name lower upper =>
        exact congrArg Except.ok (render_betweenDraft hcolumn name lower upper)
    | like name pattern m ignoreCase => exact render_likeDraft hcolumn name pattern m ignoreCase
    | featureIds tokens => exact render_featureIdsDraft (render_compareIdDraft hcolumn) tokens
    | inBox rectangle crs => rfl
    | toShape op shape crs distance => rfl
  negate operand := by
    apply String.toList_inj.1
    simp [draftFor, language]
  join op left right := by
    apply String.toList_inj.1
    simp [draftFor, language]
  besideBox _ := rfl

end Texts

end Sql

end FilterEncoding
