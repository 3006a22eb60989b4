/-!
# Filter parameters

The filter parameter of a request holds one document for each layer, every one in parentheses.
Parentheses inside a document do not count, and neither do those in quoted attribute values: the
documents are told apart by following the nesting of their elements.
-/

namespace FilterEncoding.FilterParameter

/-- Where the scan is: in which quotes, at which depth of elements, and whether inside a tag.  Each
character changes the depth by one at most, so that 32 bits are enough for it in a text of fewer
than 2 ^ 31 characters.  Longer texts are scanned as if the depth had no bound. -/
structure Place where
  quote : Option Char
  depth : Int
  inTag : Bool
  deriving Repr, DecidableEq

namespace Place

def outside : Place := ⟨none, 0, false⟩

/-- The place behind a `<` that is followed by `next`. -/
def enterTag (p : Place) (next : Option Char) : Place :=
  match next with
  | some '/' => { p with depth := p.depth - 1, inTag := true }
  | some '!' => { p with inTag := true }
  | _ => { p with depth := p.depth + 1, inTag := true }

/-- The place behind a character that is followed by `next`. -/
def step (p : Place) (c : Char) (next : Option Char) : Place :=
  match p.quote with
  | some q => if c = q then { p with quote := none } else p
  | none =>
      if p.inTag && (c = '\'' || c = '"') then { p with quote := some c }
      else if c = '<' then p.enterTag next
      else if c = '/' && next = some '>' then { p with depth := p.depth - 1 }
      else if c = '>' then { p with inTag := false }
      else p

/-- Whether a closing parenthesis ends the document here. -/
def isOutside (p : Place) : Bool :=
  p.quote.isNone && p.depth = 0

end Place

/-- The documents of a parameter from a place in it on.  `before` holds the current document in
reverse, from its opening parenthesis on.  A document that is not closed is dropped, and so is
everything behind a closing parenthesis without an opening one directly after it. -/
def documentsFrom (p : Place) (before : List Char) : List Char → List (List Char)
  | [] => []
  | c :: rest =>
      if c = ')' && p.isOutside then
        before.reverse.tail :: (if rest.head? = some '(' then documentsFrom p [] rest else [])
      else documentsFrom (p.step c rest.head?) (c :: before) rest

/-- The documents of a parameter; none if it does not start with a parenthesis. -/
def documents (value : String) : List String :=
  if value.toList.head? = some '(' then
    (documentsFrom .outside [] value.toList).map String.ofList
  else []

end FilterEncoding.FilterParameter
