import FilterEncoding.Expression.Common
import FilterEncoding.Proofs.Expression.Bracketed

/-!
# Drafts of the common dialect

The common dialect written as drafts.  `translation` says that the drafts are drafts of the texts
that the dialect writes.
-/

namespace FilterEncoding.Common

open FilterEncoding.Geometry (Engine Rectangle Shape)
open Bracketed
open Reading

/-- A date, which cannot contain its delimiter. -/
def dateQuote : Quote := ⟨'`', '`', .never⟩

/-- The well-known text of a shape. -/
def shapeQuote : Quote := ⟨'\'', '\'', .never⟩

def quotes : List Quote := [stringQuote, bracketQuote, dateQuote, shapeQuote]

theorem rules : Rules quotes where
  string := rfl
  bracket := rfl
  number := by decide
  parens := by decide
  alternatives := by decide

/-- What a value of a kind stands between, unless it is a number. -/
def kindQuote : ValueKind → Quote
  | .date => dateQuote
  | .string | .numeric => stringQuote

/-- A value and its escaped text, which is written even if the value is a number. -/
def operandDraft (kind : ValueKind) (value text : String) : Fragment :=
  valueDraft (kindQuote kind) (kind ≠ .numeric) value text text

def compareDraft (layer : Layer) (r : Relation) (name : String) (value : Option String)
    (ignoreCase : Bool) : List Fragment :=
  let kind := valueKind layer name value
  group "" [attributeDraft (kind = .string) name, words (" " ++ relation r ignoreCase ++ " "),
    operandDraft kind (value.getD "") ((value.map layer.escapeString).getD "")] ""

def betweenDraft (layer : Layer) (name lower upper : String) : List Fragment :=
  let kind := rangeKind layer name lower upper
  group "" [attributeDraft (kind = .string) name, words "  >= ",
    operandDraft kind lower (layer.escapeString lower), words " AND  ",
    attributeDraft (kind = .string) name, words "  <= ",
    operandDraft kind upper (layer.escapeString upper)] ""

def likeDraft (name pattern : String) (m : Metacharacters) (ignoreCase : Bool) : List Fragment :=
  group "" [attributeDraft true name, words (if ignoreCase then " ~* " else " ~ "),
    .token stringQuote (.pattern pattern) (regex m pattern)] ""

def callDraft (engine : Engine) (function : String) (shape : Shape) (distance : Option Float) :
    List Fragment :=
  let rest :=
    match distance with
    | some d => ", " ++ Number.text d
    | none => ""
  group function (.token bracketQuote .dialect "shape" :: words ", " ::
    group "fromText" [.token shapeQuote .dialect (engine.wkt shape)] rest) " = TRUE"

def inBoxDraft (layer : Layer) (engine : Engine) (r : Rectangle) (crs : Option String) :
    List Fragment :=
  group "" (words "NOT " :: group "" (words "NOT " ::
    group "" (callDraft engine "intersects" (boxShape layer engine r crs) none) "") "") ""

def toShapeDraft (layer : Layer) (engine : Engine) (op : SpatialOperator) (s : Shape)
    (crs : Option String) (distance : Option Distance) : List Fragment :=
  let projected := engine.project s (crs.or layer.mapCrs) layer.layerCrs
  if op.isDistance then
    let d := (distance.map (layerDistance layer engine)).getD 0
    callDraft engine (functionName op) (buffered engine projected d) (some d)
  else callDraft engine (functionName op) projected none

def testDraft (layer : Layer) (engine : Engine) : Test → Except Obstacle (List Fragment)
  | .relation r name value ignoreCase => .ok (compareDraft layer r name value ignoreCase)
  | .between name lower upper => .ok (betweenDraft layer name lower upper)
  | .like name pattern m ignoreCase => .ok (likeDraft name pattern m ignoreCase)
  | .featureIds tokens => featureIdsDraft .common layer (compareIdDraft layer " == ") tokens
  | .inBox r crs => .ok (inBoxDraft layer engine r crs)
  | .toShape op shape crs distance => .ok (toShapeDraft layer engine op shape crs distance)

/-- The common dialect as drafts, for a layer with any rules of escaping. -/
def draftFor (layer : Layer) (engine : Engine) : Language (List Fragment) where
  test := testDraft layer engine
  negate := fun operand => group "" (words "NOT " :: operand) ""
  join := fun op left right =>
    group "" (left ++ words (" " ++ op.keyword ++ " ") :: right) ""
  besideBox := id

/-- The common dialect as drafts. -/
def draft (s : LayerSchema) (engine : Engine) : Language (List Fragment) :=
  draftFor s.toLayer engine

/-! ## The text of a draft -/

theorem bracketed_eq_text (kind : ValueKind) (name : String) :
    bracketed kind name = (attributeDraft (kind = .string) name).text := by
  cases kind with
  | string => exact (text_attributeDraft_true name).symm
  | date => rfl
  | numeric => rfl

theorem text_operandDraft (kind : ValueKind) (value text : String) :
    (operandDraft kind value text).text = quoted kind text := by
  cases kind with
  | string => rfl
  | date => rfl
  | numeric => rfl

/-- A missing value is a string, and no date. -/
theorem valueKind_eq_numeric_iff {layer : Layer} {name : String} {value : Option String} :
    valueKind layer name value = .numeric ↔
      Dialect.common.isString layer name value = false ∧ layer.attributeType name ≠ some .date := by
  cases value with
  | none => simp [valueKind, Dialect.isString]
  | some v => by_cases hdate : layer.attributeType name = some .date <;> simp [valueKind, hdate]

theorem rangeKind_eq_numeric_iff {layer : Layer} {name lower upper : String} :
    rangeKind layer name lower upper = .numeric ↔
      Dialect.common.isStringRange layer name lower upper = false ∧
        layer.attributeType name ≠ some .date := by
  by_cases hdate : layer.attributeType name = some .date <;> simp [rangeKind, hdate]

variable (layer : Layer)

theorem render_compareDraft (r : Relation) (name : String) (value : Option String)
    (ignoreCase : Bool) :
    render (compareDraft layer r name value ignoreCase) =
      compare layer r name value ignoreCase := by
  apply String.toList_inj.1
  simp [compareDraft, compare, bracketed_eq_text, text_operandDraft]

theorem render_betweenDraft (name lower upper : String) :
    render (betweenDraft layer name lower upper) = between layer name lower upper := by
  apply String.toList_inj.1
  simp [betweenDraft, between, bracketed_eq_text, text_operandDraft]

theorem render_likeDraft (name pattern : String) (m : Metacharacters) (ignoreCase : Bool) :
    render (likeDraft name pattern m ignoreCase) = like name pattern m ignoreCase := by
  apply String.toList_inj.1
  unfold likeDraft like
  cases ignoreCase with
  | true => simp [stringQuote]
  | false => simp [stringQuote]

theorem render_callDraft (engine : Engine) (function : String) (shape : Shape)
    (distance : Option Float) :
    render (callDraft engine function shape distance) = call engine function shape distance := by
  apply String.toList_inj.1
  unfold callDraft call
  cases distance with
  | none => simp [bracketQuote, shapeQuote]
  | some d => simp [bracketQuote, shapeQuote]

theorem render_inBoxDraft (engine : Engine) (r : Rectangle) (crs : Option String) :
    render (inBoxDraft layer engine r crs) = inBox layer engine r crs := by
  apply String.toList_inj.1
  simp [inBoxDraft, inBox, render_callDraft]

theorem render_toShapeDraft (engine : Engine) (op : SpatialOperator) (s : Shape)
    (crs : Option String) (distance : Option Distance) :
    render (toShapeDraft layer engine op s crs distance) =
      toShape layer engine op s crs distance := by
  unfold toShapeDraft toShape
  dsimp only
  split
  · exact render_callDraft engine _ _ _
  · exact render_callDraft engine _ _ _

/-- The drafts are drafts of the dialect. -/
theorem translation (engine : Engine) :
    Language.Translation render (draftFor layer engine) (language layer engine) where
  test t := by
    cases t with
    | relation r name value ignoreCase =>
        exact congrArg Except.ok (render_compareDraft layer r name value ignoreCase)
    | between name lower upper =>
        exact congrArg Except.ok (render_betweenDraft layer name lower upper)
    | like name pattern m ignoreCase =>
        exact congrArg Except.ok (render_likeDraft name pattern m ignoreCase)
    | featureIds tokens => exact render_featureIdsDraft (render_compareIdDraft layer " == ") tokens
    | inBox r crs => exact congrArg Except.ok (render_inBoxDraft layer engine r crs)
    | toShape op shape crs distance =>
        exact congrArg Except.ok (render_toShapeDraft layer engine op shape crs distance)
  negate operand := by
    apply String.toList_inj.1
    simp [draftFor, language]
  join op left right := by
    apply String.toList_inj.1
    simp [draftFor, language]
  besideBox _ := rfl

end FilterEncoding.Common
