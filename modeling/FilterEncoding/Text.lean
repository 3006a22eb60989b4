import FilterEncoding.Chars.Blank
import FilterEncoding.Chars.Letters
import FilterEncoding.Chars.Cut

/-!
# Operations on text

The character-list operations of `FilterEncoding.Chars` on `String`.  Each one is its list
operation seen through `String.toList`, which is what the lemmas here say.
-/

namespace FilterEncoding.Text

def trim (s : String) : String :=
  String.ofList (Chars.trim s.toList)

/-- The words of a text, cut at blanks. -/
def words (s : String) : List String :=
  (Chars.words s.toList).map String.ofList

/-- Equality up to the case of ASCII letters. -/
def same (a b : String) : Bool :=
  Chars.same a.toList b.toList

/-- What stands before and behind the first `c`, if there is one. -/
def cutFirst (c : Char) (s : String) : Option (String × String) :=
  (Chars.cutFirst c s.toList).map fun (a, b) => (String.ofList a, String.ofList b)

/-- What stands before and behind the last `c`, if there is one. -/
def cutLast (c : Char) (s : String) : Option (String × String) :=
  (Chars.cutLast c s.toList).map fun (a, b) => (String.ofList a, String.ofList b)

/-- What stands behind the last `c`; the whole text when it has none. -/
def afterLast (c : Char) (s : String) : String :=
  String.ofList (Chars.afterLast c s.toList)

/-- The pieces between the occurrences of a character; a text without one is its only piece. -/
def pieces (c : Char) (s : String) : List String :=
  (s.toList.splitOn c).map String.ofList

/-- The pieces between the occurrences of a pattern that is not empty. -/
def piecesAround (pattern s : String) : List String :=
  (Chars.splitAround pattern.toList s.toList).map String.ofList

def contains (pattern s : String) : Bool :=
  Chars.occurs pattern.toList s.toList

@[simp]
theorem toList_trim (s : String) : (trim s).toList = Chars.trim s.toList := by
  simp [trim]

@[simp]
theorem toList_afterLast (c : Char) (s : String) :
    (afterLast c s).toList = Chars.afterLast c s.toList := by
  simp [afterLast]

theorem same_iff (a b : String) : same a b = true ↔ Chars.lower a.toList = Chars.lower b.toList :=
  Chars.same_iff _ _

@[simp]
theorem same_refl (s : String) : same s s = true :=
  Chars.same_refl _

end FilterEncoding.Text
