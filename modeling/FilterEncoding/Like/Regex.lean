import FilterEncoding.Like.Folding
import FilterEncoding.Like.Pattern

/-!
# Matching in the process

A pattern as an anchored regular expression, and the texts it accepts.  The expression uses `.` and
`.*` for the items of the pattern, so that neither a single character nor a run covers a line feed;
every other character that has a meaning in regular expressions is escaped.
-/

namespace FilterEncoding.Like

/-- The characters that have a meaning in regular expressions. -/
def regexSpecials : List Char :=
  ['\\', '.', '+', '*', '?', '(', ')', '|', '[', ']', '\x7b', '\x7d', '^', '$', '#', '&', '-', '~']

/-- A character that stands for itself. -/
def escaped (c : Char) : List Char :=
  if regexSpecials.contains c then ['\\', c] else [c]

def Item.regex : Item → List Char
  | .char c => escaped c
  | .one => ['.']
  | .run => ['.', '*']

/-- The regular expression of a pattern; it accepts whole texts only. -/
def regex (ignoreCase : Bool) (pattern : List Item) : String :=
  (if ignoreCase then "(?i)^" else "^") ++ String.ofList (pattern.flatMap Item.regex) ++ "$"

/-- Whether a character of a pattern stands for a character of a text. -/
def sameChar (ignoreCase : Bool) (c d : Char) : Bool :=
  if ignoreCase then fold c = fold d else c = d

/-- Whether an item, with what follows it in the pattern, covers a text that starts with `d`.
What follows covers the text itself (`here`) or the text behind `d` (`next`); the item with what
follows covers the text behind `d` (`later`). -/
def Item.covers (ignoreCase : Bool) (item : Item) (d : Char) (here next later : Bool) : Bool :=
  match item with
  | .char c => sameChar ignoreCase c d && next
  | .one => d != '\n' && next
  | .run => here || (d != '\n' && later)

/-- Whether an item, with what follows it, covers the empty text. -/
def Item.coversEnd : Item → Bool → Bool
  | .run, here => here
  | _, _ => false

/-- The answers of a test for every tail of a text, the whole text first. -/
def onTails (test : List Char → Bool) : List Char → List Bool
  | [] => [test []]
  | d :: text => test (d :: text) :: onTails test text

/-- The answers of an item with what follows it for every tail of a text, from the answers of what
follows it.  Each answer takes one step, so that a pattern takes as many steps as its length times
that of the text, whatever its runs. -/
def Item.onTails (ignoreCase : Bool) (item : Item) : List Char → List Bool → List Bool
  | [], behind => [item.coversEnd (behind.headD false)]
  | d :: text, behind =>
      let later := Item.onTails ignoreCase item text behind.tail
      item.covers ignoreCase d (behind.headD false) (behind.tail.headD false)
        (later.headD false) :: later

/-- The answers of a pattern for every tail of a text. -/
def acceptsTails (ignoreCase : Bool) (text : List Char) : List Item → List Bool
  | [] => onTails List.isEmpty text
  | item :: items => item.onTails ignoreCase text (acceptsTails ignoreCase text items)

/-- Whether a text can be cut, in order, into one piece for each item. -/
def accepts (ignoreCase : Bool) (pattern : List Item) (text : List Char) : Bool :=
  (acceptsTails ignoreCase text pattern).headD false

theorem headD_onTails (test : List Char → Bool) (text : List Char) :
    (onTails test text).headD false = test text := by
  cases text <;> rfl

/-- An item followed by a test of the rest, by recursion on the text. -/
def Item.followedBy (ignoreCase : Bool) (item : Item) (test : List Char → Bool) :
    List Char → Bool
  | [] => item.coversEnd (test [])
  | d :: text =>
      item.covers ignoreCase d (test (d :: text)) (test text)
        (item.followedBy ignoreCase test text)

theorem onTails_followedBy (ignoreCase : Bool) (item : Item) (test : List Char → Bool)
    (text : List Char) :
    item.onTails ignoreCase text (onTails test text) =
      onTails (item.followedBy ignoreCase test) text := by
  induction text with
  | nil => rfl
  | cons d text ih =>
      simp only [Item.onTails, onTails, List.tail_cons, ih, headD_onTails, List.headD_cons,
        Item.followedBy]

theorem acceptsTails_eq_onTails (ignoreCase : Bool) (pattern : List Item) (text : List Char) :
    acceptsTails ignoreCase text pattern = onTails (accepts ignoreCase pattern) text := by
  induction pattern generalizing text with
  | nil =>
      have empty : accepts ignoreCase [] = List.isEmpty := by
        funext t
        exact headD_onTails List.isEmpty t
      rw [empty]
      rfl
  | cons item items ih =>
      have step : accepts ignoreCase (item :: items) =
          item.followedBy ignoreCase (accepts ignoreCase items) := by
        funext t
        simp only [accepts, acceptsTails, ih]
        rw [onTails_followedBy, headD_onTails]
      rw [step, ← onTails_followedBy, ← ih]
      rfl

/-- The empty pattern accepts the empty text alone. -/
theorem accepts_nil (ignoreCase : Bool) (text : List Char) :
    accepts ignoreCase [] text = text.isEmpty :=
  headD_onTails List.isEmpty text

/-- The first item of a pattern is followed by a text that the other items accept. -/
theorem accepts_cons (ignoreCase : Bool) (item : Item) (items : List Item) (text : List Char) :
    accepts ignoreCase (item :: items) text =
      item.followedBy ignoreCase (accepts ignoreCase items) text := by
  rw [← headD_onTails (item.followedBy ignoreCase (accepts ignoreCase items)) text,
    ← onTails_followedBy, ← acceptsTails_eq_onTails]
  rfl

end FilterEncoding.Like

namespace FilterEncoding.LikeOptions

/-- The regular expression of a pattern, if no metacharacter is missing. -/
def regex? (o : LikeOptions) (pattern : String) : Option String :=
  o.metacharacters?.map fun m => Like.regex o.ignoreCase (Like.items m pattern.toList)

/-- Whether a text matches a pattern, if no metacharacter is missing. -/
def accepts? (o : LikeOptions) (pattern text : String) : Option Bool :=
  o.metacharacters?.map fun m =>
    Like.accepts o.ignoreCase (Like.items m pattern.toList) text.toList

/-- Why a pattern has no regular expression. -/
def missingMetacharacter : String := "empty like metacharacter"

end FilterEncoding.LikeOptions
