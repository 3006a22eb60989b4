import FilterEncoding.Xml.Scope
import FilterEncoding.Xml.Segment

/-!
# Documents

A document is an optional declaration, one root element, and comments, processing instructions and
white space around it.  Its segments are taken one by one while a stack holds the elements that
are still open; the tree grows at the top of the stack.
-/

namespace FilterEncoding.Xml

/-- An element whose end tag has not come yet.  Its content is kept in reverse. -/
structure OpenElement where
  name : QualifiedName
  attributes : List Attribute
  scope : Scope
  content : List Node

/-- The state of reading: the open elements, the innermost first, and the root once it is
complete. -/
structure Reading where
  open? : List OpenElement
  root : Option Node

namespace Reading

def start : Reading := ⟨[], none⟩

/-- The namespaces in scope. -/
def scope (r : Reading) : Scope :=
  match r.open? with
  | [] => []
  | e :: _ => e.scope

/-- Add a comment or a processing instruction, which may also stand outside the root. -/
def addAside (r : Reading) (n : Node) : Reading :=
  match r.open? with
  | [] => r
  | e :: es => { r with open? := { e with content := n :: e.content } :: es }

/-- Append text; it joins the text directly in front. -/
def addText? (r : Reading) (value : String) : Option Reading :=
  match r.open? with
  | [] => none
  | e :: es =>
      let content :=
        match e.content with
        | .text front :: before => .text (front ++ value) :: before
        | before => .text value :: before
      some { r with open? := { e with content } :: es }

/-- Add a complete element.  Outside any element it is the root, of which there is one. -/
def addElement? (r : Reading) (n : Node) : Option Reading :=
  match r.open? with
  | [] => if r.root.isSome then none else some { r with root := some n }
  | e :: es => some { r with open? := { e with content := n :: e.content } :: es }

/-- Take a start tag. -/
def openTag? (r : Reading) (tag : StartTag) : Option Reading := do
  let (scope, attributes) ← r.scope.enter? tag
  if tag.closed then r.addElement? (.element tag.name.base attributes [])
  else if r.open?.isEmpty && r.root.isSome then none
  else pure { r with open? := ⟨tag.name, attributes, scope, []⟩ :: r.open? }

/-- Take an end tag, which has to name the innermost open element. -/
def closeTag? (r : Reading) (name : QualifiedName) : Option Reading :=
  match r.open? with
  | [] => none
  | e :: es =>
      if e.name = name then
        { r with open? := es }.addElement?
          (.element e.name.base e.attributes e.content.reverse)
      else none

end Reading

/-- Whether the body of a comment is well formed. -/
def isCommentBody (body : List Char) : Bool :=
  !Chars.occurs "--".toList body && body.getLast? != some '-'

/-- Whether the body of a processing instruction is well formed: it starts with a name, where
colons count as letters, and is no XML declaration. -/
def isInstructionBody (body : List Char) : Bool :=
  !"xml ".toList.isPrefixOf body &&
    match body with
    | [] => false
    | c :: _ => isNameStart c || c == ':'

/-- Take one segment. -/
def Reading.step? (r : Reading) : Segment → Option Reading
  | .text raw =>
      if r.open?.isEmpty then (if raw.all isSpace then some r else none)
      else (text? raw).bind r.addText?
  | .comment body =>
      if isCommentBody body then some (r.addAside (.comment (String.ofList body))) else none
  | .cdata body => r.addText? (cdataText body)
  | .instruction body =>
      if isInstructionBody body then some (r.addAside (.instruction (String.ofList body)))
      else none
  | .startTag body => (startTag? body).bind r.openTag?
  | .endTag body => (endTag? body).bind r.closeTag?

/-- The root, once no element is open any more. -/
def Reading.finish? (r : Reading) : Option Node :=
  if r.open?.isEmpty then r.root else none

/-- Read one attribute of the XML declaration, whose name starts with `keyword`. -/
def scanDeclared? (keyword : String) (cs : List Char) : Option (List Char) :=
  if keyword.toList.isPrefixOf cs then do
    let (_, rest) ← scanName? cs
    let rest ← scanEquals? rest
    let (raw, rest) ← scanQuoted? rest
    if raw.contains '<' then none else pure rest
  else none

/-- Skip white space, which only the end of the declaration makes superfluous. -/
def scanGap? (cs : List Char) : Option (List Char) :=
  match cs with
  | [] => some []
  | c :: _ =>
      if isSpace c then some (skipSpace cs)
      else if "?>".toList.isPrefixOf cs then some cs else none

/-- What follows the XML declaration, from the text behind its opening `<?xml` on: a version, then
an encoding and a standalone note, which may both be left out. -/
def scanDeclaration? (cs : List Char) : Option (List Char) := do
  let cs ← scanDeclared? "version" (skipSpace cs)
  let cs ← scanGap? cs
  let cs ←
    if "encoding".toList.isPrefixOf cs then (scanDeclared? "encoding" cs).bind scanGap?
    else some cs
  let cs ← if "standalone".toList.isPrefixOf cs then scanDeclared? "standalone" cs else some cs
  afterOpening? "?>" (skipSpace cs)

/-- Drop a byte order mark and the XML declaration in front of a document. -/
def dropDeclaration? (cs : List Char) : Option (List Char) :=
  let cs :=
    match cs with
    | '\uFEFF' :: rest => rest
    | _ => cs
  match afterOpening? "<?xml " cs with
  | some rest => scanDeclaration? rest
  | none => some cs

/-- The root element of a document; `none` if the document is not well formed. -/
def document? (text : String) : Option Node := do
  let cs := text.toList
  if cs.all isAllowed then
    let body ← dropDeclaration? cs
    let segments ← segments body
    let last ← segments.foldlM Reading.step? Reading.start
    last.finish?
  else none

end FilterEncoding.Xml
