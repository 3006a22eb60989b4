import FilterEncoding.Predicate.Element
import FilterEncoding.Xml.Document
import FilterEncoding.Xml.Unprefixed

/-!
# Predicates from documents

A filter document is read without regard to namespaces.  Its filter element is the first one named
`Filter`, and the filter's predicate is its first child element with a supported name; feature-id
elements directly behind one another make up one predicate.
-/

namespace FilterEncoding

open FilterEncoding.Xml (Node)

/-- Why a document is not read as a filter. -/
inductive DocumentError where
  | malformed
  | noFilter
  /-- The filter has no supported child; its first child element is named, if there is one. -/
  | unsupported (element : Option String)
  /-- An element of the filter could not be read. -/
  | invalid (element : String)
  deriving Repr, DecidableEq

namespace DocumentError

def message : DocumentError → String
  | malformed => "XML error: not well-formed"
  | noFilter => "no Filter element found"
  | unsupported element => "unsupported filter: " ++ element.getD "empty Filter"
  | invalid element => "invalid filter: " ++ element

end DocumentError

namespace Predicate

/-- Whether a node is an element with a supported name. -/
def isSupported (n : Node) : Bool :=
  n.name?.any isSupportedName

/-- Whether a node is a feature-id element. -/
def isFeatureId (n : Node) : Bool :=
  n.name?.any isFeatureIdName

/-- The predicate of a filter element, which may still have undefined nodes. -/
def ofFilter (filter : Node) : Except DocumentError Predicate :=
  match filter.elements.dropWhile fun n => !isSupported n with
  | [] => .error (.unsupported (filter.elements.head?.bind Node.name?))
  | first :: more =>
      if isFeatureId first then .ok (featureIdsOf first (more.takeWhile isFeatureId))
      else .ok (ofNode first)

/-- Refuse a tree with an undefined node. -/
def validated (p : Predicate) : Except DocumentError Predicate :=
  match p.firstUndefined? with
  | some element => .error (.invalid element)
  | none => .ok p

/-- Read a filter document. -/
def ofDocument (text : String) : Except DocumentError Predicate :=
  if Text.contains "Filter" text then
    match Xml.document? (Xml.unprefixed text) with
    | none => .error .malformed
    | some root =>
        match root.nodes.find? (Node.named "Filter") with
        | none => .error .noFilter
        | some filter => ofFilter filter >>= validated
  else .error .noFilter

end Predicate

end FilterEncoding
