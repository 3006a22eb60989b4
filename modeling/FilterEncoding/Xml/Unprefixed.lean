import FilterEncoding.Chars.Blank
import FilterEncoding.Xml.Segment

/-!
# Documents without namespaces

Filters arrive with any namespace prefixes, declared or not.  They are removed from the text before
it is read: element and attribute names keep their local part and declarations are dropped, while
text, attribute values, comments, CDATA sections, processing instructions and declarations stay as
they are.  The text need not be well formed; a tag that cannot be taken apart stays too.
-/

namespace FilterEncoding.Xml

/-- The sections that are copied as they are: what each starts with and what ends it, the more
special start first.  The end is looked for from the start of the section on. -/
def verbatimSections : List (String × String) :=
  [("<!--", "-->"), ("<![CDATA[", "]]>"), ("<?", "?>"), ("<!", ">")]

/-- The text that ends the verbatim section a text starts with, if it starts with one. -/
def verbatimEnd? (cs : List Char) : Option (List Char) :=
  (verbatimSections.find? fun (opening, _) => opening.toList.isPrefixOf cs).map
    fun (_, closing) => closing.toList

/-- Whether an attribute with this name declares a namespace. -/
def isDeclarationName (name : List Char) : Bool :=
  name == "xmlns".toList || "xmlns:".toList.isPrefixOf name

/-- An attribute without its prefix, a space in front; nothing for a declaration. -/
def localAttribute (name : List Char) (quote : Char) (value : List Char) : List Char :=
  if isDeclarationName name then []
  else ' ' :: (Chars.afterLast ':' name ++ '=' :: quote :: (value ++ [quote]))

/-- Take one attribute in front: its local form, and the rest without blanks in front.  `none` if
there is no equals sign or no quoted value behind it. -/
def takeAttribute? (cs : List Char) : Option (List Char × List Char) := do
  let (name, behind) ← Chars.cutFirst '=' cs
  match Chars.trimStart behind with
  | [] => none
  | quote :: rest =>
      if quote = '"' ∨ quote = '\'' then do
        let (value, rest) ← Chars.cutFirst quote rest
        pure (localAttribute (Chars.trim name) quote value, Chars.trimStart rest)
      else none

theorem length_takeAttribute_lt {cs written rest : List Char}
    (h : takeAttribute? cs = some (written, rest)) : rest.length < cs.length := by
  simp only [takeAttribute?, Option.bind_eq_bind, Option.bind_eq_some_iff, Prod.exists] at h
  obtain ⟨name, behind, h1, h⟩ := h
  split at h
  · cases h
  · next quote inner hq =>
    split at h
    · simp only [Option.bind_eq_some_iff, Prod.exists] at h
      obtain ⟨value, after, h2, heq⟩ := h
      cases heq
      have e1 := congrArg List.length (Chars.eq_append_of_cutFirst h1)
      have e2 := congrArg List.length (Chars.eq_append_of_cutFirst h2)
      have e3 : (Chars.trimStart behind).length ≤ behind.length :=
        (List.dropWhile_suffix _).length_le
      have e4 : (Chars.trimStart after).length ≤ after.length :=
        (List.dropWhile_suffix _).length_le
      simp only [hq, List.length_append, List.length_cons] at e1 e2 e3 ⊢
      omega
    · cases h

/-- The local forms of all attributes. -/
def localAttributes? (cs : List Char) : Option (List Char) :=
  if cs.isEmpty then some []
  else
    match _h : takeAttribute? cs with
    | none => none
    | some (written, rest) => (localAttributes? rest).map (written ++ ·)
termination_by cs.length
decreasing_by exact length_takeAttribute_lt _h

/-- Drop a slash in front, and tell whether there was one. -/
def dropFirstSlash : List Char → Bool × List Char
  | '/' :: cs => (true, cs)
  | cs => (false, cs)

/-- Drop a last character `c`, and tell whether there was one. -/
def dropLastChar (c : Char) (cs : List Char) : Bool × List Char :=
  if cs.getLast? = some c then (true, cs.dropLast) else (false, cs)

/-- A tag without prefixes and declarations, from its text behind the `<` on; `none` if its
attributes cannot be taken apart. -/
def localTag? (cs : List Char) : Option (List Char) :=
  let (closing, body) := dropFirstSlash cs
  let (terminated, body) := dropLastChar '>' body
  let (selfClosing, body) := dropLastChar '/' body
  let name := body.takeWhile fun c => !Chars.isBlank c
  let attributes := Chars.trimStart (body.dropWhile fun c => !Chars.isBlank c)
  (localAttributes? attributes).map fun written =>
    '<' :: ((if closing then ['/'] else []) ++ Chars.afterLast ':' name ++ written ++
      (if selfClosing then ['/'] else []) ++ (if terminated then ['>'] else []))

/-- The text of a tag behind its `<`, with the closing `>`, and the rest.  A tag that is not closed
takes the whole text. -/
def takeTag (cs : List Char) : List Char × List Char :=
  match cutTag none cs with
  | some (body, rest) => (body ++ ['>'], rest)
  | none => (cs, [])

theorem length_takeTag_le (cs : List Char) : (takeTag cs).2.length ≤ cs.length := by
  simp only [takeTag]
  split
  · next h =>
    have := congrArg List.length (eq_append_of_cutTag h)
    simp only [List.length_append, List.length_cons] at this ⊢
    omega
  · simp

/-- Every closing text of a verbatim section is not empty. -/
theorem verbatimEnd_ne_nil {cs closing : List Char} (h : verbatimEnd? cs = some closing) :
    closing ≠ [] := by
  simp only [verbatimEnd?, Option.map_eq_some_iff, Prod.exists] at h
  obtain ⟨opening, ending, hfind, rfl⟩ := h
  have hmem := List.mem_of_find?_eq_some hfind
  simp only [verbatimSections, List.mem_cons, Prod.mk.injEq, List.not_mem_nil, or_false] at hmem
  rcases hmem with ⟨_, rfl⟩ | ⟨_, rfl⟩ | ⟨_, rfl⟩ | ⟨_, rfl⟩ <;> simp

/-- Remove prefixes and declarations from all tags of a text. -/
def unprefixedChars : List Char → List Char
  | [] => []
  | c :: cs =>
      if c = '<' then
        match _h : verbatimEnd? (c :: cs) with
        | some closing =>
            (Chars.through closing (c :: cs)).1 ++
              unprefixedChars (Chars.through closing (c :: cs)).2
        | none =>
            (localTag? (takeTag cs).1).getD (c :: (takeTag cs).1) ++
              unprefixedChars (takeTag cs).2
      else c :: unprefixedChars cs
termination_by cs => cs.length
decreasing_by
  · exact Chars.length_through_lt (verbatimEnd_ne_nil _h) c cs
  · exact Nat.lt_succ_of_le (length_takeTag_le cs)
  · simp

/-- A document text without namespace prefixes and declarations. -/
def unprefixed (text : String) : String :=
  String.ofList (unprefixedChars text.toList)

end FilterEncoding.Xml
