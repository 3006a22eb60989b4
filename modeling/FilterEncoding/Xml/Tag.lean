import FilterEncoding.Chars.Cut
import FilterEncoding.Xml.CharData

/-!
# Tags

The inside of a tag: a qualified name, and in a start tag attributes with white space in front of
each.  A start tag that ends in a slash is an element without content.
-/

namespace FilterEncoding.Xml

/-- A name with its namespace qualifier, which is empty if there is none. -/
structure QualifiedName where
  qualifier : String
  base : String
  deriving Repr, DecidableEq

/-- An attribute as it is written, with its value already read. -/
structure TagAttribute where
  name : QualifiedName
  value : String
  deriving Repr, DecidableEq

structure StartTag where
  name : QualifiedName
  attributes : List TagAttribute
  /-- Whether the element has no content and no end tag. -/
  closed : Bool
  deriving Repr, DecidableEq

/-- Whether a part of a qualified name starts as a name does. -/
def startsName : List Char → Bool
  | [] => false
  | c :: _ => isNameStart c

/-- A qualified name from its characters.  One colon separates the qualifier; an empty qualifier is
no qualifier. -/
def qualifiedName? (cs : List Char) : Option QualifiedName :=
  match Chars.cutFirst ':' cs with
  | none => if startsName cs then some ⟨"", String.ofList cs⟩ else none
  | some (qualifier, base) =>
      if (qualifier.isEmpty || startsName qualifier) && startsName base && !base.contains ':' then
        some ⟨String.ofList qualifier, String.ofList base⟩
      else none

def isQualifiedNameChar (c : Char) : Bool :=
  isNameChar c || c == ':'

/-- The qualified name at the start of a text, and the rest. -/
def scanName? (cs : List Char) : Option (QualifiedName × List Char) :=
  (qualifiedName? (cs.takeWhile isQualifiedNameChar)).map fun name =>
    (name, cs.dropWhile isQualifiedNameChar)

/-- The raw value at the start of a text: a quote, the value, and the same quote. -/
def scanQuoted? : List Char → Option (List Char × List Char)
  | [] => none
  | q :: cs => if q = '"' ∨ q = '\'' then Chars.cutFirst q cs else none

/-- The equals sign at the start of a text, with white space on both sides, and what follows. -/
def scanEquals? (cs : List Char) : Option (List Char) :=
  match skipSpace cs with
  | '=' :: rest => some (skipSpace rest)
  | _ => none

/-- The attribute at the start of a text, with white space in front, and the rest. -/
def scanAttribute? (cs : List Char) : Option (TagAttribute × List Char) :=
  match cs with
  | [] => none
  | c :: _ =>
      if isSpace c then do
        let (name, rest) ← scanName? (skipSpace cs)
        let rest ← scanEquals? rest
        let (raw, rest) ← scanQuoted? rest
        let value ← attributeValue? raw
        pure (⟨name, value⟩, rest)
      else none

theorem length_scanName_le {cs rest : List Char} {name : QualifiedName}
    (h : scanName? cs = some (name, rest)) : rest.length ≤ cs.length := by
  simp only [scanName?, Option.map_eq_some_iff] at h
  obtain ⟨_, _, heq⟩ := h
  cases heq
  exact (List.dropWhile_suffix _).length_le

theorem length_scanEquals_lt {cs rest : List Char} (h : scanEquals? cs = some rest) :
    rest.length < cs.length := by
  simp only [scanEquals?] at h
  split at h
  · next tail htail =>
    cases h
    have h1 := length_skipSpace_le cs
    have h2 := length_skipSpace_le tail
    simp only [htail, List.length_cons] at h1
    omega
  · cases h

theorem length_scanQuoted_lt {cs raw rest : List Char} (h : scanQuoted? cs = some (raw, rest)) :
    rest.length < cs.length := by
  cases cs with
  | nil => simp [scanQuoted?] at h
  | cons q cs =>
      simp only [scanQuoted?, Option.ite_none_right_eq_some] at h
      have := congrArg List.length (Chars.eq_append_of_cutFirst h.2)
      simp at this ⊢
      omega

theorem length_scanAttribute_lt {cs rest : List Char} {a : TagAttribute}
    (h : scanAttribute? cs = some (a, rest)) : rest.length < cs.length := by
  cases cs with
  | nil => simp [scanAttribute?] at h
  | cons c cs =>
      simp only [scanAttribute?, Option.ite_none_right_eq_some, Option.bind_eq_bind,
        Option.bind_eq_some_iff, Prod.exists] at h
      obtain ⟨_, _, r1, h1, r2, h2, _, r3, h3, _, _, heq⟩ := h
      cases heq
      have := length_skipSpace_le (c :: cs)
      have := length_scanName_le h1
      have := length_scanEquals_lt h2
      have := length_scanQuoted_lt h3
      omega

/-- The attributes that follow the name in a start tag. -/
def scanAttributes? (cs : List Char) : Option (List TagAttribute) :=
  if (skipSpace cs).isEmpty then some []
  else
    match _h : scanAttribute? cs with
    | none => none
    | some (a, rest) => (scanAttributes? rest).map (a :: ·)
termination_by cs.length
decreasing_by exact length_scanAttribute_lt _h

/-- A start tag from what stands between `<` and `>`. -/
def startTag? (body : List Char) : Option StartTag := do
  let closed := body.getLast? == some '/'
  let (name, rest) ← scanName? (if closed then body.dropLast else body)
  let attributes ← scanAttributes? rest
  pure ⟨name, attributes, closed⟩

/-- The name in an end tag from what stands between `</` and `>`. -/
def endTag? (body : List Char) : Option QualifiedName := do
  let (name, rest) ← scanName? body
  if (skipSpace rest).isEmpty then pure name else none

end FilterEncoding.Xml
