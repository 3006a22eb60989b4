import FilterEncoding.Proofs.Reading.Parentheses
import FilterEncoding.Proofs.Reading.Reader

/-!
# Texts that know where they come from

A text is drafted as a list of fragments: what is meant to stand outside tokens, and what is meant
to be one token.  Every fragment says which part of a request it comes from, if any.

* `render` — the text of a draft.
* `marked` — the same text, every character with its origin.
* `reads_lexemes` — a reader of the text finds what was meant, provided that every fragment is
  legible and a token whose closing character could be the first of two is followed by something
  else.
-/

namespace FilterEncoding.Reading

/-- Where a text comes from. -/
inductive Origin where
  /-- The rules of the dialect. -/
  | dialect
  /-- The name of an attribute. -/
  | name (name : String)
  /-- A value that an attribute is compared with.  Bounds of ranges and feature ids are values, and
  a missing value is an empty one. -/
  | value (value : String)
  | pattern (pattern : String)
  /-- The escape character of a pattern. -/
  | escape (c : Char)
  deriving Repr, DecidableEq

inductive Fragment where
  | bare (origin : Origin) (text : String)
  | token (quote : Quote) (origin : Origin) (body : String)
  deriving Repr, DecidableEq

/-- The characters of a text with their origin. -/
def mark (origin : Origin) (s : String) : List (Char × Origin) :=
  s.toList.map fun c => (c, origin)

/-- No character of a text opens a token. -/
def OpensNone (quotes : List Quote) (text : String) : Prop :=
  ∀ c ∈ text.toList, quotes.find? (·.opening == c) = none

instance (quotes : List Quote) (text : String) : Decidable (OpensNone quotes text) :=
  List.decidableBAll _ text.toList

/-- Text that neither opens a token nor contains a parenthesis. -/
def Plain (quotes : List Quote) (text : String) : Prop :=
  OpensNone quotes text ∧ Unparenthesized text.toList

instance (quotes : List Quote) (text : String) : Decidable (Plain quotes text) :=
  instDecidableAnd

namespace Fragment

def text : Fragment → String
  | bare _ text => text
  | token quote _ body => String.singleton quote.opening ++ body ++ String.singleton quote.closing

/-- The characters of a fragment with their origins.  The delimiters of a token belong to the
dialect. -/
def marked : Fragment → List (Char × Origin)
  | bare origin text => mark origin text
  | token quote origin body =>
      (quote.opening, .dialect) :: (mark origin body ++ [(quote.closing, .dialect)])

/-- What a reader is meant to find. -/
def lexemes : Fragment → List (Lexeme Origin)
  | bare origin text => (mark origin text).map .bare
  | token quote origin body =>
      [.token quote (quote.opening, .dialect) (mark origin body) (quote.closing, .dialect)]

/-- The characters outside tokens. -/
def outside : Fragment → List Char
  | bare _ text => text.toList
  | token _ _ _ => []

/-- No character of a bare text opens a token, and no character of a body closes one. -/
def Legible (quotes : List Quote) : Fragment → Prop
  | bare _ text => OpensNone quotes text
  | token quote origin body =>
      quotes.find? (·.opening == quote.opening) = some quote ∧
        (quote.guard = .doubled → quote.closing = quote.opening) ∧ Sealed quote (mark origin body)

end Fragment

/-- Words of the dialect. -/
abbrev words (text : String) : Fragment :=
  .bare .dialect text

/-- The text of a draft. -/
def render : List Fragment → String
  | [] => ""
  | f :: fs => f.text ++ render fs

def marked (fs : List Fragment) : List (Char × Origin) :=
  fs.flatMap Fragment.marked

def lexemes (fs : List Fragment) : List (Lexeme Origin) :=
  fs.flatMap Fragment.lexemes

def outside (fs : List Fragment) : List Char :=
  fs.flatMap Fragment.outside

/-- A draft in parentheses. -/
def group (before : String) (fs : List Fragment) (after : String) : List Fragment :=
  words (before ++ "(") :: (fs ++ [words (")" ++ after)])

/-- Whether a draft begins with a character outside tokens. -/
def StartsBare : List Fragment → Prop
  | .bare _ text :: _ => text ≠ ""
  | _ => False

/-- A token that is closed by a character which could be the first of two is followed by a
character outside tokens. -/
def Separated : List Fragment → Prop
  | [] => True
  | .bare _ _ :: fs => Separated fs
  | .token quote _ _ :: fs => (quote.guard = .doubled → StartsBare fs) ∧ Separated fs

variable {quotes : List Quote}

theorem OpensNone.append {s t : String} (hs : OpensNone quotes s) (ht : OpensNone quotes t) :
    OpensNone quotes (s ++ t) := by
  intro c hc
  rw [String.toList_append, List.mem_append] at hc
  rcases hc with hc | hc
  · exact hs c hc
  · exact ht c hc

theorem plain_empty : Plain quotes "" :=
  ⟨List.forall_mem_nil _, List.forall_mem_nil _⟩

theorem Plain.append {s t : String} (hs : Plain quotes s) (ht : Plain quotes t) :
    Plain quotes (s ++ t) := by
  refine ⟨hs.1.append ht.1, ?_⟩
  rw [String.toList_append]
  exact hs.2.append ht.2

/-! ## Drafts in parts -/

@[simp] theorem Fragment.text_bare (origin : Origin) (text : String) :
    (Fragment.bare origin text).text = text := rfl

@[simp] theorem Fragment.text_token (quote : Quote) (origin : Origin) (body : String) :
    (Fragment.token quote origin body).text =
      String.singleton quote.opening ++ body ++ String.singleton quote.closing := rfl

@[simp] theorem render_nil : render [] = "" := rfl

@[simp] theorem render_cons (f : Fragment) (fs : List Fragment) :
    render (f :: fs) = f.text ++ render fs := rfl

@[simp] theorem render_append (fs gs : List Fragment) :
    render (fs ++ gs) = render fs ++ render gs := by
  induction fs with
  | nil => rw [List.nil_append, render_nil, String.empty_append]
  | cons f fs ih => rw [List.cons_append, render_cons, ih, render_cons, String.append_assoc]

@[simp] theorem render_group (before : String) (fs : List Fragment) (after : String) :
    render (group before fs after) = before ++ "(" ++ render fs ++ ")" ++ after := by
  simp [group, String.append_assoc]

@[simp] theorem outside_nil : outside [] = [] := rfl

@[simp] theorem outside_bare_cons (origin : Origin) (text : String) (fs : List Fragment) :
    outside (.bare origin text :: fs) = text.toList ++ outside fs := rfl

@[simp] theorem outside_token_cons (quote : Quote) (origin : Origin) (body : String)
    (fs : List Fragment) : outside (.token quote origin body :: fs) = outside fs := rfl

@[simp] theorem outside_append (fs gs : List Fragment) :
    outside (fs ++ gs) = outside fs ++ outside gs :=
  List.flatMap_append

@[simp] theorem outside_group (before : String) (fs : List Fragment) (after : String) :
    outside (group before fs after) =
      before.toList ++ '(' :: (outside fs ++ ')' :: after.toList) := by
  simp [group]

theorem nested_outside {fs : List Fragment} (h : ∀ f ∈ fs, Nested f.outside) :
    Nested (outside fs) := by
  induction fs with
  | nil => exact Nested.nil
  | cons f fs ih =>
      exact (h f List.mem_cons_self).append (ih fun g hg => h g (List.mem_cons_of_mem f hg))

theorem outer_lexemes (fs : List Fragment) : outer (lexemes fs) = outside fs := by
  induction fs with
  | nil => rfl
  | cons f fs ih =>
      have hcons : lexemes (f :: fs) = f.lexemes ++ lexemes fs := List.flatMap_cons
      rw [hcons, outer_append, ih]
      cases f with
      | bare origin text =>
          rw [Fragment.lexemes, outer_map_bare, mark, List.map_map]
          exact congrArg (· ++ outside fs) (List.map_id _)
      | token quote origin body => rfl

theorem map_fst_mark (origin : Origin) (s : String) : (mark origin s).map Prod.fst = s.toList := by
  rw [mark, List.map_map]
  exact List.map_id _

theorem snd_of_mem_mark {origin : Origin} {s : String} {c : Char × Origin}
    (h : c ∈ mark origin s) : c.2 = origin := by
  obtain ⟨d, -, rfl⟩ := List.mem_map.1 h
  rfl

theorem fst_of_mem_mark {origin : Origin} {s : String} {c : Char × Origin}
    (h : c ∈ mark origin s) : c.1 ∈ s.toList := by
  obtain ⟨d, hd, rfl⟩ := List.mem_map.1 h
  exact hd

/-- Marking changes no character. -/
theorem map_fst_marked (fs : List Fragment) : (marked fs).map Prod.fst = (render fs).toList := by
  induction fs with
  | nil => rfl
  | cons f fs ih =>
      have hcons : marked (f :: fs) = f.marked ++ marked fs := List.flatMap_cons
      rw [hcons, List.map_append, ih, render_cons, String.toList_append]
      cases f with
      | bare origin text => rw [Fragment.marked, map_fst_mark, Fragment.text]
      | token quote origin body =>
          rw [Fragment.marked, List.map_cons, List.map_append, map_fst_mark, Fragment.text]
          simp

theorem closing_ne_empty (after : String) : ")" ++ after ≠ "" := by
  intro h
  simpa using congrArg String.toList h

/-! ## Reading what was meant -/

/-- A text without the closing character, where no backslash takes one with it. -/
theorem sealed_of_not_mem {quote : Quote} {cs : List Char} (hguard : quote.guard ≠ .backslash)
    (h : quote.closing ∉ cs) (origin : Origin) :
    Sealed quote (cs.map fun c => (c, origin)) := by
  refine sealed_of_forall (fun c hc hclosing => ?_) fun hbackslash => absurd hbackslash hguard
  obtain ⟨d, hd, rfl⟩ := List.mem_map.1 hc
  exact h (hclosing ▸ hd)

theorem sealed_of_flatMap {quote : Quote} {origin : Origin} {f : Char → List Char}
    {cs : List Char} (h : ∀ c ∈ cs, Sealed quote ((f c).map fun x => (x, origin))) :
    Sealed quote (mark origin (String.ofList (cs.flatMap f))) := by
  rw [mark, String.toList_ofList, List.map_flatMap]
  exact sealed_flatMap h

theorem Separated.append {fs gs : List Fragment} (hfs : Separated fs) (hgs : Separated gs) :
    Separated (fs ++ gs) := by
  induction fs with
  | nil => exact hgs
  | cons f fs ih =>
      cases f with
      | bare origin text => exact ih hfs
      | token quote origin body =>
          -- What follows the token in `fs` still follows it in `fs ++ gs`.
          refine ⟨fun hguard => ?_, ih hfs.2⟩
          have hstarts := hfs.1 hguard
          cases fs with
          | nil => exact hstarts.elim
          | cons g fs => cases g <;> exact hstarts

/-- A character outside tokens in front of a draft that begins with one. -/
theorem StartsBare.exists_marked {fs : List Fragment} (h : StartsBare fs)
    (hlegible : ∀ f ∈ fs, f.Legible quotes) :
    ∃ c rest, marked fs = c :: rest ∧ quotes.find? (·.opening == c.1) = none := by
  cases fs with
  | nil => exact h.elim
  | cons f fs =>
      cases f with
      | token quote origin body => exact h.elim
      | bare origin text =>
          have htext : text.toList ≠ [] := fun hnil => h (String.toList_eq_nil_iff.1 hnil)
          obtain ⟨c, cs, hcs⟩ := List.exists_cons_of_ne_nil htext
          have hc := hlegible _ List.mem_cons_self c (hcs ▸ List.mem_cons_self)
          refine ⟨(c, origin), cs.map (fun d => (d, origin)) ++ marked fs, ?_, hc⟩
          show mark origin text ++ marked fs = _
          rw [mark, hcs]
          rfl

theorem reads_lexemes {fs : List Fragment} (hlegible : ∀ f ∈ fs, f.Legible quotes)
    (hseparated : Separated fs) : Reads quotes (marked fs) (lexemes fs) := by
  induction fs with
  | nil => rfl
  | cons f fs ih =>
      have hrest : ∀ g ∈ fs, g.Legible quotes := fun g hg => hlegible g (List.mem_cons_of_mem f hg)
      have hf := hlegible f List.mem_cons_self
      cases f with
      | bare origin text =>
          refine Reads.append (reads_bare fun c hc => ?_) (ih hrest hseparated)
          obtain ⟨d, hd, rfl⟩ := List.mem_map.1 hc
          exact hf d hd
      | token quote origin body =>
          obtain ⟨hopening, hsame, hbody⟩ := hf
          by_cases hguard : quote.guard = .doubled
          · -- The token is complete only when the next character is not its closing one.  That
            -- character opens no token, and the closing one does.
            obtain ⟨next, rest, hmarked, hnext⟩ :=
              (hseparated.1 hguard).exists_marked hrest
            have hne : next.1 ≠ quote.closing := by
              intro heq
              rw [heq, hsame hguard, hopening] at hnext
              cases hnext
            have hreads : Reads quotes (next :: rest) (lexemes fs) :=
              hmarked ▸ ih hrest hseparated.2
            have htoken : Reads quotes ((quote.opening, Origin.dialect) ::
                (mark origin body ++ (quote.closing, Origin.dialect) :: next :: rest))
                (.token quote (quote.opening, Origin.dialect) (mark origin body)
                  (quote.closing, Origin.dialect) :: lexemes fs) :=
              reads_doubled_token hopening hbody hguard rfl hne hreads
            rw [← hmarked] at htoken
            show Reads quotes (_ :: (mark origin body ++ [_]) ++ marked fs) _
            rw [List.cons_append, List.append_assoc]
            exact htoken
          · have htoken : Reads quotes (Fragment.token quote origin body).marked
                (Fragment.token quote origin body).lexemes :=
              reads_token hopening hbody hguard rfl
            exact htoken.append (ih hrest hseparated.2)

end FilterEncoding.Reading
