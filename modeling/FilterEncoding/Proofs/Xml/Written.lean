import FilterEncoding.Chars.Blank
import FilterEncoding.Xml.Tag

/-!
# Documents as they are written

A document of elements, attributes and text together with all that its text shows besides: the
qualifiers of names, the white space inside tags, the quotes around values, and whether an element
without content has an end tag.

* `Written.Content.written` — the text of a document.
* `Written.Composes` — properties that a tag has if its pieces have them.
* `Written.Content.plain` — the same document without qualifiers and declarations, with one space in
  front of each attribute and no other white space inside tags.
-/

namespace FilterEncoding.Xml

/-- Whether a text is a name, where colons count as letters. -/
def isXmlName : List Char → Bool
  | [] => false
  | c :: cs => (isNameStart c || c == ':') && cs.all isQualifiedNameChar

namespace Written

structure Word where
  chars : List Char
  isName : isXmlName chars = true
  deriving DecidableEq

/-- A name with its qualifier, if it has one. -/
structure Name where
  qualifier : Option Word
  base : Word
  deriving DecidableEq

/-- White space inside a tag. -/
structure Blanks where
  chars : List Char
  isBlank : ∀ c ∈ chars, Chars.isBlank c = true
  deriving DecidableEq

/-- Text between tags. -/
structure Text where
  chars : List Char
  noTag : '<' ∉ chars
  deriving DecidableEq

/-- An attribute with the white space in front of it and around its equals sign. -/
structure Attribute where
  gap : Blanks
  separate : gap.chars ≠ []
  name : Name
  before : Blanks
  after : Blanks
  quote : Char
  isQuote : quote = '"' ∨ quote = '\''
  value : List Char
  noQuote : quote ∉ value
  deriving DecidableEq

/-- A start tag with the white space behind its last attribute. -/
structure Tag where
  name : Name
  attributes : List Attribute
  gap : Blanks
  deriving DecidableEq

/-- The content of a document or an element.  Each element comes with the text in front of it, so
that no two texts are next to each other. -/
inductive Content where
  | text (raw : Text)
  /-- An element without content that is closed in its start tag. -/
  | closed (front : Text) (tag : Tag) (rest : Content)
  /-- An element with an end tag.  The end tag repeats the name, with a qualifier of its own. -/
  | nested (front : Text) (tag : Tag) (inner : Content) (endQualifier : Option Word)
      (endGap : Blanks) (rest : Content)
  deriving DecidableEq

/-! ## Texts -/

def Name.chars (n : Name) : List Char :=
  match n.qualifier with
  | none => n.base.chars
  | some q => q.chars ++ ':' :: n.base.chars

def Attribute.chars (a : Attribute) : List Char :=
  a.gap.chars ++ (a.name.chars ++ (a.before.chars ++
    '=' :: (a.after.chars ++ a.quote :: (a.value ++ [a.quote]))))

/-- What stands between the delimiters of a tag. -/
def Tag.chars (t : Tag) : List Char :=
  t.name.chars ++ (t.attributes.flatMap Attribute.chars ++ t.gap.chars)

/-- The end tag of an element, as a tag without attributes. -/
def Tag.ending (t : Tag) (qualifier : Option Word) (gap : Blanks) : Tag :=
  ⟨⟨qualifier, t.name.base⟩, [], gap⟩

namespace Content

def chars : Content → List Char
  | text raw => raw.chars
  | closed front tag rest => front.chars ++ '<' :: (tag.chars ++ '/' :: '>' :: rest.chars)
  | nested front tag inner endQualifier endGap rest =>
      front.chars ++ '<' :: (tag.chars ++ '>' :: (inner.chars ++
        '<' :: '/' :: ((tag.ending endQualifier endGap).chars ++ '>' :: rest.chars)))

/-- A document as it is written. -/
def written (d : Content) : String :=
  String.ofList d.chars

/-- The tags of a document, start tags and end tags. -/
def tags : Content → List Tag
  | text _ => []
  | closed _ tag rest => tag :: rest.tags
  | nested _ tag inner endQualifier endGap rest =>
      tag :: (inner.tags ++ tag.ending endQualifier endGap :: rest.tags)

def texts : Content → List Text
  | text raw => [raw]
  | closed front _ rest => front :: rest.texts
  | nested front _ inner _ _ rest => front :: (inner.texts ++ rest.texts)

end Content

/-! ## Characters -/

/-- Characters that stand neither in names nor in white space. -/
def reserved : List Char := ['<', '>', '/', '=', '"', '\'', '!', '?', ')']

theorem Word.forall_isQualifiedNameChar (w : Word) :
    ∀ c ∈ w.chars, isQualifiedNameChar c = true := by
  obtain ⟨chars, hname⟩ := w
  cases chars with
  | nil => cases hname
  | cons c cs =>
      rw [isXmlName, Bool.and_eq_true, List.all_eq_true] at hname
      refine List.forall_mem_cons.2 ⟨?_, hname.2⟩
      rw [isQualifiedNameChar, isNameChar, Bool.or_right_comm, hname.1, Bool.true_or]

theorem Name.forall_isQualifiedNameChar (n : Name) :
    ∀ c ∈ n.chars, isQualifiedNameChar c = true := by
  unfold chars
  cases n.qualifier with
  | none => exact n.base.forall_isQualifiedNameChar
  | some q =>
      exact List.forall_mem_append.2 ⟨q.forall_isQualifiedNameChar,
        List.forall_mem_cons.2 ⟨by decide, n.base.forall_isQualifiedNameChar⟩⟩

theorem Name.notMem_reserved (n : Name) : ∀ c ∈ n.chars, c ∉ reserved := fun c hc hreserved => by
  have hall : reserved.all (fun d => !isQualifiedNameChar d) = true := by decide
  have hnot := List.all_eq_true.1 hall c hreserved
  rw [n.forall_isQualifiedNameChar c hc] at hnot
  exact absurd hnot (by decide)

theorem Blanks.notMem_reserved (b : Blanks) : ∀ c ∈ b.chars, c ∉ reserved :=
  fun c hc hreserved => by
    have hall : reserved.all (fun d => !Chars.isBlank d) = true := by decide
    have hnot := List.all_eq_true.1 hall c hreserved
    rw [b.isBlank c hc] at hnot
    exact absurd hnot (by decide)

theorem Word.exists_eq_cons (w : Word) : ∃ c cs, w.chars = c :: cs := by
  obtain ⟨chars, hname⟩ := w
  cases chars with
  | nil => cases hname
  | cons c cs => exact ⟨c, cs, rfl⟩

theorem Name.exists_eq_cons (n : Name) : ∃ c cs, n.chars = c :: cs := by
  unfold chars
  cases n.qualifier with
  | none => exact n.base.exists_eq_cons
  | some q =>
      obtain ⟨c, cs, hq⟩ := q.exists_eq_cons
      exact ⟨c, cs ++ ':' :: n.base.chars, congrArg (· ++ ':' :: n.base.chars) hq⟩

/-- A tag starts with the name of the element. -/
theorem Tag.exists_eq_cons (t : Tag) : ∃ c cs, t.chars = c :: cs ∧ c ∉ reserved := by
  obtain ⟨c, cs, hname⟩ := t.name.exists_eq_cons
  refine ⟨c, cs ++ (t.attributes.flatMap Attribute.chars ++ t.gap.chars), ?_, ?_⟩
  · rw [chars, hname, List.cons_append]
  · exact t.name.notMem_reserved c (hname ▸ List.mem_cons_self)

/-- What holds of the pieces of a tag, and of a text if it holds of two parts of it. -/
structure Composes (P : List Char → Prop) : Prop where
  append {front rest : List Char} (hfront : P front) (hrest : P rest) : P (front ++ rest)
  /-- Names and blanks. -/
  unreserved {cs : List Char} (h : ∀ c ∈ cs, c ∉ reserved) : P cs
  equals : P ['=']
  quoted {quote : Char} (hquote : quote = '"' ∨ quote = '\'') {value : List Char}
    (hvalue : quote ∉ value) : P (quote :: (value ++ [quote]))

namespace Composes

variable {P : List Char → Prop} (h : Composes P)

include h

theorem attribute_chars (a : Attribute) : P a.chars :=
  h.append (h.unreserved a.gap.notMem_reserved) <|
    h.append (h.unreserved a.name.notMem_reserved) <|
      h.append (h.unreserved a.before.notMem_reserved) <|
        h.append h.equals <|
          h.append (h.unreserved a.after.notMem_reserved) (h.quoted a.isQuote a.noQuote)

theorem tag_chars (t : Tag) : P t.chars := by
  have hattributes : P (t.attributes.flatMap Attribute.chars) := by
    induction t.attributes with
    | nil => exact h.unreserved (List.forall_mem_nil _)
    | cons a attributes ih => exact h.append (h.attribute_chars a) ih
  exact h.append (h.unreserved t.name.notMem_reserved)
    (h.append hattributes (h.unreserved t.gap.notMem_reserved))

end Composes

/-! ## Without qualifiers -/

def Blanks.none : Blanks := ⟨[], List.forall_mem_nil _⟩

def Blanks.space : Blanks := ⟨[' '], List.all_eq_true.1 rfl⟩

theorem Blanks.space_ne_nil : Blanks.space.chars ≠ [] :=
  List.cons_ne_nil _ _

def Text.none : Text := ⟨[], List.not_mem_nil⟩

def Name.plain (n : Name) : Name := ⟨.none, n.base⟩

/-- Whether an attribute with this name declares a namespace. -/
def Name.declares (n : Name) : Bool :=
  match n.qualifier with
  | .none => n.base.chars == "xmlns".toList
  | some q => q.chars == "xmlns".toList

def Attribute.plain (a : Attribute) : Attribute where
  gap := .space
  separate := Blanks.space_ne_nil
  name := a.name.plain
  before := .none
  after := .none
  quote := a.quote
  isQuote := a.isQuote
  value := a.value
  noQuote := a.noQuote

def Tag.plain (t : Tag) : Tag where
  name := t.name.plain
  attributes := (t.attributes.filter fun a => !a.name.declares).map Attribute.plain
  gap := .none

def Content.plain : Content → Content
  | text raw => text raw
  | closed front tag rest => closed front tag.plain rest.plain
  | nested front tag inner _ _ rest => nested front tag.plain inner.plain .none .none rest.plain

end Written

end FilterEncoding.Xml
