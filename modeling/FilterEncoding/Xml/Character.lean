import FilterEncoding.Chars.Ranges

/-!
# Character classes of XML 1.0

The characters a document may hold, its white space, and the characters of names.  A colon
separates the parts of a qualified name and belongs to neither class of name characters here.
-/

namespace FilterEncoding.Xml

/-- White space of the grammar: space, tab, line feed and carriage return. -/
def isSpace (c : Char) : Bool :=
  c == ' ' || c == '\t' || c == '\n' || c == '\r'

/-- Code points that no document holds, neither directly nor by reference: the control characters
that are not white space, and the two non-characters at the end of the basic plane. -/
def forbiddenRanges : List (Nat × Nat) :=
  [(0x00, 0x08), (0x0B, 0x0C), (0x0E, 0x1F), (0xFFFE, 0xFFFF)]

def isAllowed (c : Char) : Bool :=
  !Chars.within forbiddenRanges c

/-- Characters a name may start with. -/
def nameStartRanges : List (Nat × Nat) :=
  [(0x41, 0x5A), (0x5F, 0x5F), (0x61, 0x7A), (0xC0, 0xD6), (0xD8, 0xF6), (0xF8, 0x2FF),
   (0x370, 0x37D), (0x37F, 0x1FFF), (0x200C, 0x200D), (0x2070, 0x218F), (0x2C00, 0x2FEF),
   (0x3001, 0xD7FF), (0xF900, 0xFDCF), (0xFDF0, 0xFFFD), (0x10000, 0xEFFFF)]

/-- Characters that a name may hold behind its first one, besides those it may start with. -/
def nameTailRanges : List (Nat × Nat) :=
  [(0x2D, 0x2E), (0x30, 0x39), (0xB7, 0xB7), (0x300, 0x36F), (0x203F, 0x2040)]

def isNameStart (c : Char) : Bool :=
  Chars.within nameStartRanges c

def isNameChar (c : Char) : Bool :=
  isNameStart c || Chars.within nameTailRanges c

/-- Drop the white space in front. -/
def skipSpace (cs : List Char) : List Char :=
  cs.dropWhile isSpace

theorem length_skipSpace_le (cs : List Char) : (skipSpace cs).length ≤ cs.length :=
  (List.dropWhile_suffix isSpace).length_le

end FilterEncoding.Xml
