/-!
# Reading a text with quoted tokens

A text is read from left to right.  Outside tokens every character stands for itself, unless it
opens a token; a token ends at its closing character.  Characters carry marks, which the reader
hands on and never looks at.

* `run_append` — reading a text is reading its parts one after the other.
* `Sealed` — a text that stays inside a token whatever was there before.  It is built from
  characters that do not close the token and from guarded pairs.
* `Reads` — a text that begins and ends outside tokens.
-/

namespace FilterEncoding.Reading

/-- How a token can contain the character that closes it. -/
inductive Guard where
  /-- Not at all. -/
  | never
  /-- Written twice. -/
  | doubled
  /-- Behind a backslash, which takes the next character with it whatever that is. -/
  | backslash
  deriving Repr, DecidableEq

/-- A kind of token. -/
structure Quote where
  opening : Char
  closing : Char
  guard : Guard
  deriving Repr, DecidableEq

/-- What a text consists of. -/
inductive Lexeme (α : Type) where
  /-- A character outside tokens. -/
  | bare (c : Char × α)
  | token (quote : Quote) (opening : Char × α) (body : List (Char × α)) (closing : Char × α)

/-- Where the reader is. -/
inductive Mode (α : Type) where
  | outside
  /-- Inside a token, behind a part of its body. -/
  | inside (quote : Quote) (opening : Char × α) (body : List (Char × α))
  /-- Inside a token, behind a backslash that takes the next character with it. -/
  | escaped (quote : Quote) (opening : Char × α) (body : List (Char × α))
  /-- Behind a closing character that may turn out to be the first of two. -/
  | closed (quote : Quote) (opening : Char × α) (body : List (Char × α)) (closing : Char × α)

variable {α : Type}

/-- Read a character outside tokens. -/
def enter (quotes : List Quote) (c : Char × α) : Mode α × List (Lexeme α) :=
  match quotes.find? (·.opening == c.1) with
  | some quote => (.inside quote c [], [])
  | none => (.outside, [.bare c])

/-- Read a character. -/
def step (quotes : List Quote) : Mode α → Char × α → Mode α × List (Lexeme α)
  | .outside, c => enter quotes c
  | .inside quote opening body, c =>
      if c.1 = quote.closing then
        if quote.guard = .doubled then (.closed quote opening body c, [])
        else (.outside, [.token quote opening body c])
      else if quote.guard = .backslash ∧ c.1 = '\\' then (.escaped quote opening (body ++ [c]), [])
      else (.inside quote opening (body ++ [c]), [])
  | .escaped quote opening body, c => (.inside quote opening (body ++ [c]), [])
  | .closed quote opening body closing, c =>
      if c.1 = quote.closing then (.inside quote opening (body ++ [closing, c]), [])
      else ((enter quotes c).1, .token quote opening body closing :: (enter quotes c).2)

/-- Read a text. -/
def run (quotes : List Quote) : Mode α → List (Char × α) → Mode α × List (Lexeme α)
  | mode, [] => (mode, [])
  | mode, c :: cs =>
      ((run quotes (step quotes mode c).1 cs).1,
        (step quotes mode c).2 ++ (run quotes (step quotes mode c).1 cs).2)

/-- The text is read completely, and the reader ends outside tokens. -/
def Reads (quotes : List Quote) (text : List (Char × α)) (lexemes : List (Lexeme α)) : Prop :=
  run quotes .outside text = (.outside, lexemes)

/-- A text that does not lead out of a token. -/
def Sealed (quote : Quote) (text : List (Char × α)) : Prop :=
  ∀ quotes opening body, run quotes (.inside quote opening body) text =
    (.inside quote opening (body ++ text), [])

/-- The characters outside tokens. -/
def outer : List (Lexeme α) → List Char
  | [] => []
  | .bare c :: rest => c.1 :: outer rest
  | .token _ _ _ _ :: rest => outer rest

variable {quotes : List Quote} {quote : Quote}

/-! ## Reading in parts -/

theorem run_cons (mode : Mode α) (c : Char × α) (cs : List (Char × α)) :
    run quotes mode (c :: cs) =
      ((run quotes (step quotes mode c).1 cs).1,
        (step quotes mode c).2 ++ (run quotes (step quotes mode c).1 cs).2) := rfl

theorem run_append (mode : Mode α) (xs ys : List (Char × α)) :
    run quotes mode (xs ++ ys) =
      ((run quotes (run quotes mode xs).1 ys).1,
        (run quotes mode xs).2 ++ (run quotes (run quotes mode xs).1 ys).2) := by
  induction xs generalizing mode with
  | nil => rfl
  | cons c cs ih => rw [List.cons_append, run_cons, ih, run_cons, List.append_assoc]

theorem Reads.append {xs ys : List (Char × α)} {ls ms : List (Lexeme α)}
    (hx : Reads quotes xs ls) (hy : Reads quotes ys ms) : Reads quotes (xs ++ ys) (ls ++ ms) := by
  unfold Reads at hx hy ⊢
  rw [run_append, hx, hy]

theorem outer_append (ls ms : List (Lexeme α)) : outer (ls ++ ms) = outer ls ++ outer ms := by
  induction ls with
  | nil => rfl
  | cons l ls ih =>
      cases l with
      | bare c => exact congrArg (c.1 :: ·) ih
      | token quote opening body closing => exact ih

/-! ## Outside tokens -/

theorem enter_of_find?_eq_none {c : Char × α} (h : quotes.find? (·.opening == c.1) = none) :
    enter quotes c = (.outside, [.bare c]) := by
  rw [enter, h]

theorem enter_of_find?_eq_some {c : Char × α}
    (h : quotes.find? (·.opening == c.1) = some quote) :
    enter quotes c = (.inside quote c [], []) := by
  rw [enter, h]

/-- Characters that open no token stand for themselves. -/
theorem reads_bare {xs : List (Char × α)}
    (h : ∀ c ∈ xs, quotes.find? (·.opening == c.1) = none) :
    Reads quotes xs (xs.map .bare) := by
  induction xs with
  | nil => rfl
  | cons c cs ih =>
      have hcs : Reads quotes cs (cs.map .bare) := ih fun d hd => h d (List.mem_cons_of_mem c hd)
      unfold Reads at hcs ⊢
      rw [run_cons, step, enter_of_find?_eq_none (h c List.mem_cons_self), hcs]
      rfl

theorem outer_map_bare (xs : List (Char × α)) : outer (xs.map .bare) = xs.map Prod.fst := by
  induction xs with
  | nil => rfl
  | cons c cs ih => exact congrArg (c.1 :: ·) ih

/-! ## Inside a token -/

theorem sealed_nil : Sealed quote ([] : List (Char × α)) := by
  intro quotes opening body
  rw [List.append_nil]
  rfl

theorem Sealed.append {xs ys : List (Char × α)} (hx : Sealed quote xs) (hy : Sealed quote ys) :
    Sealed quote (xs ++ ys) := by
  intro quotes opening body
  rw [run_append, hx, hy, List.append_assoc]
  rfl

theorem sealed_flatMap {β : Type} {f : β → List (Char × α)} {bs : List β}
    (h : ∀ b ∈ bs, Sealed quote (f b)) : Sealed quote (bs.flatMap f) := by
  induction bs with
  | nil => exact sealed_nil
  | cons b bs ih =>
      rw [List.flatMap_cons]
      exact (h b List.mem_cons_self).append (ih fun c hc => h c (List.mem_cons_of_mem b hc))

/-- A character that neither closes the token nor takes another one with it. -/
theorem sealed_singleton {c : Char × α} (hclosing : c.1 ≠ quote.closing)
    (hbackslash : quote.guard = .backslash → c.1 ≠ '\\') : Sealed quote [c] := by
  intro quotes opening body
  rw [run_cons, step, if_neg hclosing, if_neg fun h => hbackslash h.1 h.2]
  rfl

theorem sealed_of_forall {xs : List (Char × α)} (hclosing : ∀ c ∈ xs, c.1 ≠ quote.closing)
    (hbackslash : quote.guard = .backslash → ∀ c ∈ xs, c.1 ≠ '\\') : Sealed quote xs := by
  rw [← List.flatMap_singleton' xs]
  exact sealed_flatMap fun c hc => sealed_singleton (hclosing c hc) fun h => hbackslash h c hc

/-- A backslash takes any character with it. -/
theorem sealed_backslash {c d : Char × α} (hguard : quote.guard = .backslash) (hc : c.1 = '\\')
    (hclosing : quote.closing ≠ '\\') : Sealed quote [c, d] := by
  intro quotes opening body
  have hne : c.1 ≠ quote.closing := fun h => hclosing (h.symm.trans hc)
  rw [run_cons, step, if_neg hne, if_pos ⟨hguard, hc⟩, run_cons, step, List.append_assoc]
  rfl

/-- A closing character written twice does not close the token. -/
theorem sealed_doubled {c d : Char × α} (hguard : quote.guard = .doubled)
    (hc : c.1 = quote.closing) (hd : d.1 = quote.closing) : Sealed quote [c, d] := by
  intro quotes opening body
  rw [run_cons, step, if_pos hc, if_pos hguard, run_cons, step, if_pos hd]
  rfl

/-! ## Behind a backslash -/

/-- A place in a token: behind a backslash that takes the next character with it, or not. -/
def place (quote : Quote) (opening : Char × α) (body : List (Char × α)) : Bool → Mode α
  | false => .inside quote opening body
  | true => .escaped quote opening body

/-- A text that leads from one place in a token to another. -/
def Leads (quote : Quote) (taken : Bool) (text : List (Char × α)) (taken' : Bool) : Prop :=
  ∀ quotes opening body, run quotes (place quote opening body taken) text =
    (place quote opening (body ++ text) taken', [])

theorem sealed_iff_leads {text : List (Char × α)} :
    Sealed quote text ↔ Leads quote false text false := Iff.rfl

theorem Leads.append {xs ys : List (Char × α)} {a b c : Bool} (hx : Leads quote a xs b)
    (hy : Leads quote b ys c) : Leads quote a (xs ++ ys) c := by
  intro quotes opening body
  rw [run_append, hx, hy, List.append_assoc]
  rfl

/-- Whatever is behind a backslash is taken. -/
theorem leads_taken (c : Char × α) : Leads quote true [c] false := by
  intro quotes opening body
  rfl

theorem leads_backslash {c : Char × α} (hguard : quote.guard = .backslash) (hc : c.1 = '\\')
    (hclosing : quote.closing ≠ '\\') : Leads quote false [c] true := by
  intro quotes opening body
  have hne : c.1 ≠ quote.closing := fun h => hclosing (h.symm.trans hc)
  rw [place, run_cons, step, if_neg hne, if_pos ⟨hguard, hc⟩]
  rfl

/-! ## Whole tokens -/

theorem reads_token {opening closing : Char × α} {body : List (Char × α)}
    (hopening : quotes.find? (·.opening == opening.1) = some quote) (hbody : Sealed quote body)
    (hguard : quote.guard ≠ .doubled) (hclosing : closing.1 = quote.closing) :
    Reads quotes (opening :: (body ++ [closing])) [.token quote opening body closing] := by
  unfold Reads
  rw [run_cons, step, enter_of_find?_eq_some hopening, run_append, hbody, run_cons, step,
    if_pos hclosing, if_neg hguard]
  rfl

/-- A token that is closed by a doubled character is complete only when another character
follows. -/
theorem reads_doubled_token {opening closing next : Char × α} {body rest : List (Char × α)}
    {ls : List (Lexeme α)} (hopening : quotes.find? (·.opening == opening.1) = some quote)
    (hbody : Sealed quote body) (hguard : quote.guard = .doubled)
    (hclosing : closing.1 = quote.closing) (hnext : next.1 ≠ quote.closing)
    (hrest : Reads quotes (next :: rest) ls) :
    Reads quotes (opening :: (body ++ closing :: next :: rest))
      (.token quote opening body closing :: ls) := by
  unfold Reads at hrest ⊢
  rw [run_cons, step] at hrest
  rw [run_cons, step, enter_of_find?_eq_some hopening, run_append, hbody, run_cons, step,
    if_pos hclosing, if_pos hguard, run_cons, step, if_neg hnext]
  obtain ⟨hmode, hlexemes⟩ := Prod.mk.inj hrest
  rw [← hlexemes, hmode]
  rfl

end FilterEncoding.Reading
