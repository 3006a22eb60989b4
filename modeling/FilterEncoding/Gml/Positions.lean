import FilterEncoding.Geometry.Shape
import FilterEncoding.Gml.Fault
import FilterEncoding.Number.Numeral
import FilterEncoding.Text
import FilterEncoding.Xml.Node

/-!
# Positions

GML writes a list of positions in four ways: one `posList`, one `pos` for each position, a
`coordinates` element with tuples, or `coord` elements with `X` and `Y`.  Any text where a number
is expected counts as the number it starts with.
-/

namespace FilterEncoding.Gml

open FilterEncoding.Geometry (Position)
open FilterEncoding.Xml (Node)

/-- The text an element starts with, without blanks around it. -/
def trimmedText (n : Node) : String :=
  Text.trim (n.text?.getD "")

/-- The numbers of a text, cut at blanks. -/
def numbers (text : String) : List Float :=
  (Text.words text).map Number.leadingValue

/-- The reference system an element names. -/
def reference? (n : Node) : Option String :=
  n.attribute? "srsName"

/-- The dimension an element declares, but at least two; `inherited` where it declares none. -/
def dimension (inherited : Nat) (n : Node) : Nat :=
  max 2 (((n.attribute? "srsDimension").bind (Number.unsigned? (UInt64.size - 1))).getD inherited)

/-- The separator that an attribute gives, if it is not empty; else the usual one. -/
def separator (key usual : String) (n : Node) : String :=
  match n.attribute? key with
  | some s => if s = "" then usual else s
  | none => usual

/-- The tuples of a `coordinates` element.  A blank tuple separator stands for any blanks. -/
def tuples (n : Node) : List String :=
  let between := separator "ts" " " n
  if Text.trim between = "" then Text.words (trimmedText n)
  else ((Text.piecesAround between (trimmedText n)).map Text.trim).filter (· != "")

/-- The values of a tuple of a `coordinates` element. -/
def tupleValues (n : Node) (tuple : String) : List String :=
  Text.piecesAround (separator "cs" "," n) tuple

/-- The position that a tuple starts with. -/
def tuplePosition (n : Node) (tuple : String) : Except Fault Position :=
  match tupleValues n tuple with
  | x :: y :: _ => .ok ⟨Number.leadingValue x, Number.leadingValue y⟩
  | _ => .error (.badTuple tuple)

/-- The positions of a `coordinates` element. -/
def coordinatesPositions (n : Node) : Except Fault (List Position) := do
  let positions ← (tuples n).mapM (tuplePosition n)
  if positions.isEmpty then throw .emptyCoordinates
  else pure positions

/-- The position of a `coord` element. -/
def coordPosition (n : Node) : Except Fault Position :=
  match n.child? "X", n.child? "Y" with
  | none, _ => .error .coordWithoutX
  | some _, none => .error .coordWithoutY
  | some x, some y =>
      .ok ⟨Number.leadingValue (trimmedText x), Number.leadingValue (trimmedText y)⟩

/-- The position of a `pos` element, which may have further values. -/
def posPosition (n : Node) : Except Fault Position :=
  match numbers (trimmedText n) with
  | x :: y :: _ => .ok ⟨x, y⟩
  | _ => .error .shortPosition

/-- The first two of every `dimension` values. -/
def everyPosition (dimension : Nat) : List Float → List Position
  | x :: y :: rest => ⟨x, y⟩ :: everyPosition dimension (rest.drop (dimension - 2))
  | _ => []
termination_by values => values.length
decreasing_by
  simp
  omega

/-- The positions of a `posList` element. -/
def posListPositions (inherited : Nat) (n : Node) : Except Fault (List Position) :=
  let values := numbers (trimmedText n)
  let dimension := dimension inherited n
  if values.isEmpty || values.length % dimension != 0 then
    .error (.unevenPositions values.length dimension)
  else .ok (everyPosition dimension values)

/-- The positions below a point, line or ring element, in the first of the four encodings that
occurs there. -/
def positions (inherited : Nat) (n : Node) : Except Fault (List Position) :=
  match n.descendant? "posList" with
  | some list => posListPositions inherited list
  | none =>
      match n.descendantsNamed ["pos"] with
      | pos :: more => (pos :: more).mapM posPosition
      | [] =>
          match n.descendant? "coordinates" with
          | some coordinates => coordinatesPositions coordinates
          | none =>
              match n.descendantsNamed ["coord"] with
              | coord :: more => (coord :: more).mapM coordPosition
              | [] => .error (.noCoordinates (n.name?.getD ""))

/-- The first position below an element. -/
def firstPosition (inherited : Nat) (n : Node) : Except Fault Position := do
  match ← positions inherited n with
  | p :: _ => pure p
  | [] => throw (.noCoordinates (n.name?.getD ""))

end FilterEncoding.Gml
