import FilterEncoding.Chars.Cut
import FilterEncoding.Number.Numeric
import FilterEncoding.Xml.Character

/-!
# Character data

Text and attribute values are sequences of characters, each written literally or by a reference.
A literal line break or tab is normalised; a character written by a reference never is.
-/

namespace FilterEncoding.Xml

/-- One character of character data. -/
inductive Datum where
  | literal (c : Char)
  | reference (c : Char)
  deriving Repr, DecidableEq

/-- The entities every document may refer to. -/
def predefinedEntities : List (List Char × Char) :=
  [("quot".toList, '"'), ("amp".toList, '&'), ("apos".toList, '\''), ("lt".toList, '<'),
   ("gt".toList, '>')]

/-- The value of one hexadecimal digit. -/
def hexDigitValue (c : Char) : Nat :=
  if c.isDigit then c.toNat - '0'.toNat else c.toLower.toNat - 'a'.toNat + 10

/-- The character with a code point that is written in digits.  The code point has to fit 32 bits.
One that is no character stands for the replacement character, and one that documents may not
hold is refused. -/
def charOfCodePoint? (codePoint : Nat) : Option Char :=
  if codePoint < UInt32.size then
    let c := if codePoint.isValidChar then Char.ofNat codePoint else '\uFFFD'
    if isAllowed c then some c else none
  else none

/-- The character that the name between `&` and `;` refers to. -/
def referent? (name : List Char) : Option Char :=
  match name with
  | '#' :: 'x' :: digits =>
      if !digits.isEmpty && digits.all Number.isHexDigit then
        charOfCodePoint? (digits.foldl (fun value d => 16 * value + hexDigitValue d) 0)
      else none
  | '#' :: digits =>
      if !digits.isEmpty && digits.all Char.isDigit then
        charOfCodePoint? (Number.digitsValue digits)
      else none
  | _ => predefinedEntities.lookup name

/-- The characters of character data; `none` if an ampersand starts no reference. -/
def data? : List Char → Option (List Datum)
  | [] => some []
  | c :: cs =>
      if c = '&' then
        match _h : Chars.cutFirst ';' cs with
        | none => none
        | some (name, rest) => do
            let referent ← referent? name
            let tail ← data? rest
            pure (.reference referent :: tail)
      else (data? cs).map (.literal c :: ·)
termination_by cs => cs.length
decreasing_by
  · have := congrArg List.length (Chars.eq_append_of_cutFirst _h)
    simp at this ⊢
    omega
  · simp

/-- The text of an element: a literal carriage return, with a line feed directly behind it or
without, is a line feed.  It stays a carriage return where a reference follows directly, or where
it ends the text directly behind a reference (`behindReference`). -/
def textOf (behindReference : Bool) : List Datum → List Char
  | [] => []
  | .reference c :: rest => c :: textOf true rest
  | .literal '\r' :: .literal '\n' :: rest => '\n' :: textOf false rest
  | .literal '\r' :: .literal c :: rest => '\n' :: textOf false (.literal c :: rest)
  | .literal '\r' :: .reference c :: rest => '\r' :: c :: textOf true rest
  | [.literal '\r'] => [if behindReference then '\r' else '\n']
  | .literal c :: rest => c :: textOf false rest

/-- The value of an attribute: a literal tab, line feed or carriage return is a space, and a
carriage return with a line feed behind it is only one. -/
def attributeValueOf : List Datum → List Char
  | [] => []
  | .reference c :: rest => c :: attributeValueOf rest
  | .literal '\r' :: .literal '\n' :: rest => ' ' :: attributeValueOf rest
  | .literal c :: rest =>
      (if c = '\r' ∨ c = '\n' ∨ c = '\t' then ' ' else c) :: attributeValueOf rest

/-- The text that a run of text between markup denotes. -/
def text? (raw : List Char) : Option String :=
  if Chars.occurs "]]>".toList raw then none
  else (data? raw).map fun data => String.ofList (textOf false data)

/-- The text that a CDATA section denotes; it holds no references. -/
def cdataText (body : List Char) : String :=
  String.ofList (textOf false (body.map .literal))

/-- The value that a quoted attribute value denotes; no `<` may stand in it. -/
def attributeValue? (raw : List Char) : Option String :=
  if raw.contains '<' then none
  else (data? raw).map fun data => String.ofList (attributeValueOf data)

end FilterEncoding.Xml
