import FilterEncoding.Xml.Node
import FilterEncoding.Xml.Tag

/-!
# Namespace scopes

An element sees the namespaces declared on itself and around it.  Opening an element checks its
declarations and names and keeps the attributes that are in no namespace.
-/

namespace FilterEncoding.Xml

/-- The namespace that the qualifier `xml` always denotes. -/
def xmlNamespace : String := "http://www.w3.org/XML/1998/namespace"

/-- The namespace of declarations, which no document may declare. -/
def xmlnsNamespace : String := "http://www.w3.org/2000/xmlns/"

/-- The declared qualifiers in scope with the namespaces they denote, the innermost first.  A
declaration of `xml` says nothing new and is left out. -/
abbrev Scope := List (String × String)

namespace TagAttribute

/-- Whether an attribute declares a qualifier. -/
def declaresQualifier (a : TagAttribute) : Bool :=
  a.name.qualifier == "xmlns"

/-- Whether an attribute declares the default namespace. -/
def declaresDefault (a : TagAttribute) : Bool :=
  !a.declaresQualifier && a.name.base == "xmlns"

/-- A declaration may not name the namespace of declarations.  The qualifier `xml` and its
namespace may only be declared for each other, and that namespace is never the default. -/
def isValidDeclaration (a : TagAttribute) : Bool :=
  a.value != xmlnsNamespace &&
    (a.value == xmlNamespace) == (a.declaresQualifier && a.name.base == "xml")

end TagAttribute

namespace Scope

/-- The namespace of an attribute's qualifier; `none` if it is not declared. -/
def namespace? (scope : Scope) (qualifier : String) : Option String :=
  if qualifier == "xml" then some xmlNamespace else scope.lookup qualifier

/-- The namespace and the base of an attribute's name.  Without a qualifier an attribute is in no
namespace; `none` stands for an undeclared qualifier. -/
def expandedName? (scope : Scope) (a : TagAttribute) : Option (Option String × String) :=
  if a.name.qualifier == "" then some (none, a.name.base)
  else (scope.namespace? a.name.qualifier).map fun space => (some space, a.name.base)

/-- Whether a qualifier may be used in the name of an element.  It has to be declared; `xml`, which
needs no declaration in front of an attribute, is for attributes only. -/
def allowsElement (scope : Scope) (qualifier : String) : Bool :=
  qualifier == "" || (qualifier != "xmlns" && (scope.lookup qualifier).isSome)

/-- The scope inside an element, and its attributes in no namespace.  `none` if a declaration or
name is not allowed, if a qualifier is declared twice, or if two attributes have the same
namespace and name. -/
def enter? (outer : Scope) (tag : StartTag) : Option (Scope × List Attribute) := do
  let (declarations, ordinary) :=
    tag.attributes.partition fun a => a.declaresQualifier || a.declaresDefault
  let own := (declarations.filter fun a => a.declaresQualifier && a.name.base != "xml").map
    fun a => (a.name.base, a.value)
  let scope : Scope := own ++ outer
  let names ← ordinary.mapM scope.expandedName?
  if declarations.all TagAttribute.isValidDeclaration && decide (own.map (·.1)).Nodup &&
      decide names.Nodup && scope.allowsElement tag.name.qualifier then
    pure (scope, (ordinary.filter (·.name.qualifier == "")).map fun a => ⟨a.name.base, a.value⟩)
  else none

end Scope

end FilterEncoding.Xml
