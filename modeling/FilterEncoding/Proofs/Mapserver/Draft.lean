import FilterEncoding.Expression.Mapserver
import FilterEncoding.Proofs.Expression.Bracketed

/-!
# Drafts of the Mapserver dialect

The Mapserver dialect written as drafts.  `translation` says that the drafts are drafts of the texts
that the dialect writes.
-/

namespace FilterEncoding.Mapserver

open Bracketed
open Reading

/-- A pattern, in which a backslash takes the next character with it. -/
def regexQuote : Quote := ⟨'/', '/', .backslash⟩

def quotes : List Quote := [stringQuote, bracketQuote, regexQuote]

theorem rules : Rules quotes where
  string := rfl
  bracket := rfl
  number := by decide
  parens := by decide
  alternatives := by decide

def compareDraft (layer : Layer) (r : Relation) (name : String) (value : Option String)
    (ignoreCase : Bool) : List Fragment :=
  let isString := Dialect.mapserver.isString layer name value
  group " " [attributeDraft isString name,
    words (" " ++ relation r (isString && ignoreCase) ++ " "),
    valueDraft stringQuote isString (value.getD "") ((value.map layer.escapeString).getD "")
      (value.getD "")] " "

def betweenDraft (layer : Layer) (name lower upper : String) : List Fragment :=
  let isString := Dialect.mapserver.isStringRange layer name lower upper
  group " " [attributeDraft isString name, words "  >= ",
    valueDraft stringQuote isString lower (layer.escapeString lower) lower, words " AND  ",
    attributeDraft isString name, words "  <= ",
    valueDraft stringQuote isString upper (layer.escapeString upper) upper] ""

def likeDraft (name pattern : String) (m : Metacharacters) (ignoreCase : Bool) : List Fragment :=
  group "" [attributeDraft true name, words (if ignoreCase then " ~* " else " =~ "),
    .token regexQuote (.pattern pattern) (regex m pattern)] ""

def testDraft (layer : Layer) : Test → Except Obstacle (List Fragment)
  | .relation r name value ignoreCase => .ok (compareDraft layer r name value ignoreCase)
  | .between name lower upper => .ok (betweenDraft layer name lower upper)
  | .like name pattern m ignoreCase => .ok (likeDraft name pattern m ignoreCase)
  | .featureIds tokens =>
      featureIdsDraft .mapserver layer (compareIdDraft layer " = ") tokens
  | .inBox _ _ | .toShape _ _ _ _ => .error .inexpressible

/-- The Mapserver dialect as drafts, for a layer with any rules of escaping. -/
def draftFor (layer : Layer) : Language (List Fragment) where
  test := testDraft layer
  negate := fun operand => group " " (words "NOT " :: operand) " "
  join := fun op left right =>
    group " " (left ++ words (" " ++ op.keyword ++ " ") :: right) " "
  besideBox := fun partner => group "" partner ""

/-- The Mapserver dialect as drafts. -/
def draft (s : LayerSchema) : Language (List Fragment) :=
  draftFor s.toLayer

/-! ## The text of a draft -/

variable (layer : Layer)

theorem render_compareDraft (r : Relation) (name : String) (value : Option String)
    (ignoreCase : Bool) :
    render (compareDraft layer r name value ignoreCase) =
      compare layer r name value ignoreCase := by
  apply String.toList_inj.1
  unfold compareDraft compare
  cases hstring : Dialect.mapserver.isString layer name value with
  | true => simp [stringQuote]
  | false => simp

theorem render_betweenDraft (name lower upper : String) :
    render (betweenDraft layer name lower upper) = between layer name lower upper := by
  apply String.toList_inj.1
  unfold betweenDraft between
  cases hstring : Dialect.mapserver.isStringRange layer name lower upper with
  | true => simp [stringQuote]
  | false => simp

theorem render_likeDraft (name pattern : String) (m : Metacharacters) (ignoreCase : Bool) :
    render (likeDraft name pattern m ignoreCase) = like name pattern m ignoreCase := by
  apply String.toList_inj.1
  unfold likeDraft like
  cases ignoreCase with
  | true => simp [regexQuote]
  | false => simp [regexQuote]

/-- The drafts are drafts of the dialect. -/
theorem translation : Language.Translation render (draftFor layer) (language layer) where
  test t := by
    cases t with
    | relation r name value ignoreCase =>
        exact congrArg Except.ok (render_compareDraft layer r name value ignoreCase)
    | between name lower upper =>
        exact congrArg Except.ok (render_betweenDraft layer name lower upper)
    | like name pattern m ignoreCase =>
        exact congrArg Except.ok (render_likeDraft name pattern m ignoreCase)
    | featureIds tokens => exact render_featureIdsDraft (render_compareIdDraft layer " = ") tokens
    | inBox rectangle crs => rfl
    | toShape op shape crs distance => rfl
  negate operand := by
    apply String.toList_inj.1
    simp [draftFor, language]
  join op left right := by
    apply String.toList_inj.1
    simp [draftFor, language]
  besideBox partner := by
    apply String.toList_inj.1
    simp [draftFor, language]

end FilterEncoding.Mapserver
