/-!
# XML trees

The content of a document as a tree.  An element has its local name and the attributes that are in
no namespace; all that is asked of other attributes is that they are well formed.  Comments and
processing instructions stay in the tree because they separate runs of text.
-/

namespace FilterEncoding.Xml

structure Attribute where
  name : String
  value : String
  deriving Repr, DecidableEq

inductive Node where
  | element (name : String) (attributes : List Attribute) (content : List Node)
  | text (value : String)
  | comment (value : String)
  | instruction (value : String)
  deriving Repr

namespace Node

def isElement : Node → Bool
  | element .. => true
  | _ => false

/-- The local name of an element. -/
def name? : Node → Option String
  | element name _ _ => some name
  | _ => none

def content : Node → List Node
  | element _ _ content => content
  | _ => []

/-- The value of an attribute. -/
def attribute? (key : String) : Node → Option String
  | element _ attributes _ => (attributes.find? (·.name == key)).map (·.value)
  | _ => none

/-- Whether a node is an element with this name. -/
def named (name : String) (n : Node) : Bool :=
  n.name? == some name

/-- The text an element starts with: its first child, if that is a run of text. -/
def text? (n : Node) : Option String :=
  match n.content with
  | text value :: _ => some value
  | _ => none

/-- The children that are elements. -/
def elements (n : Node) : List Node :=
  n.content.filter isElement

/-- The first child element with this name. -/
def child? (name : String) (n : Node) : Option Node :=
  n.content.find? (named name)

mutual

/-- A node and all nodes below it, in document order. -/
def nodes : Node → List Node
  | element name attributes content => element name attributes content :: nodesOf content
  | text value => [text value]
  | comment value => [comment value]
  | instruction value => [instruction value]

/-- The nodes of several trees, in document order. -/
def nodesOf : List Node → List Node
  | [] => []
  | n :: ns => nodes n ++ nodesOf ns

end

/-- The nodes below a node, in document order. -/
def descendants (n : Node) : List Node :=
  nodesOf n.content

/-- The first element below a node with this name. -/
def descendant? (name : String) (n : Node) : Option Node :=
  n.descendants.find? (named name)

/-- All elements below a node whose name is in the list, in document order. -/
def descendantsNamed (names : List String) (n : Node) : List Node :=
  n.descendants.filter fun d => names.any d.named

theorem nodesOf_append (as bs : List Node) : nodesOf (as ++ bs) = nodesOf as ++ nodesOf bs := by
  induction as with
  | nil => rfl
  | cons a as ih => simp [nodesOf, ih]

theorem named_iff (name : String) (n : Node) :
    n.named name = true ↔ n.name? = some name := by
  simp [named]

end Node

end FilterEncoding.Xml
