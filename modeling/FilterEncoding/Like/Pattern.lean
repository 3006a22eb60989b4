/-!
# Like patterns

A `PropertyIsLike` pattern with its three metacharacters.  Read from left to right, the escape
character stands for the character behind it, the wildcard for any run of characters, the single
character for exactly one, and everything else for itself; where metacharacters coincide, this is
the order in which they are tried.
-/

namespace FilterEncoding

/-- The metacharacters as the attributes of a filter give them. -/
structure LikeOptions where
  wildcard : String
  singleCharacter : String
  escape : String
  ignoreCase : Bool
  deriving Repr, DecidableEq

/-- The metacharacters that count: the first character of each attribute. -/
structure Metacharacters where
  wildcard : Char
  single : Char
  escape : Char
  deriving Repr, DecidableEq

/-- The metacharacters, if none of the attributes is empty. -/
def LikeOptions.metacharacters? (o : LikeOptions) : Option Metacharacters :=
  match o.wildcard.toList, o.singleCharacter.toList, o.escape.toList with
  | wildcard :: _, single :: _, escape :: _ => some ⟨wildcard, single, escape⟩
  | _, _, _ => none

namespace Like

/-- One item of a pattern. -/
inductive Item where
  | char (c : Char)
  /-- Exactly one character. -/
  | one
  /-- Any number of characters. -/
  | run
  deriving Repr, DecidableEq

/-- The item that a character stands for where it is not behind an escape character. -/
def Item.ofChar (m : Metacharacters) (c : Char) : Item :=
  if c = m.wildcard then .run else if c = m.single then .one else .char c

/-- The items of a pattern.  An escape character at the end stands for nothing. -/
def items (m : Metacharacters) : List Char → List Item
  | [] => []
  | [c] => if c = m.escape then [] else [.ofChar m c]
  | c :: d :: cs =>
      if c = m.escape then .char d :: items m cs else .ofChar m c :: items m (d :: cs)

end Like

end FilterEncoding
