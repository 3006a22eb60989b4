import FilterEncoding.Text

/-!
# Where a text is cut

A cut depends on the text up to the place where it is made, and not on what follows.

* `Chars.cutLast_eq_some_iff`, `Text.cutLast_eq_some_iff` — the cut at the last occurrence of a
  character.
* `Chars.cutAround_of_cutAround`, `Chars.cutAround_of_not_infix` — the cut at the first occurrence
  of a pattern, whatever follows.
-/

namespace FilterEncoding.Chars

/-! ## Characters -/

theorem cutLast_eq_none_iff {c : Char} {cs : List Char} : cutLast c cs = none ↔ c ∉ cs := by
  induction cs with
  | nil => simp [cutLast]
  | cons x xs ih =>
      rw [cutLast]
      cases hcut : cutLast c xs with
      | some cut =>
          by_cases hmem : c ∈ xs
          · simp [hmem]
          · rw [ih.2 hmem] at hcut
            cases hcut
      | none => by_cases hx : x = c <;> simp [hx, ih.1 hcut, Ne.symm]

/-- A text is cut at a character that does not occur behind the cut. -/
theorem cutLast_eq_some_iff {c : Char} {cs before after : List Char} :
    cutLast c cs = some (before, after) ↔ cs = before ++ c :: after ∧ c ∉ after := by
  induction cs generalizing before after with
  | nil => simp [cutLast]
  | cons x xs ih =>
      rw [cutLast]
      cases hcut : cutLast c xs with
      | some cut =>
          constructor
          · intro h
            cases h
            obtain ⟨rfl, hafter⟩ := ih.1 hcut
            exact ⟨rfl, hafter⟩
          · rintro ⟨heq, hafter⟩
            cases before with
            | nil =>
                cases heq
                rw [cutLast_eq_none_iff.2 hafter] at hcut
                cases hcut
            | cons y before =>
                cases heq
                rw [ih.2 ⟨rfl, hafter⟩] at hcut
                cases hcut
                rfl
      | none =>
          have hxs : c ∉ xs := cutLast_eq_none_iff.1 hcut
          constructor
          · intro h
            obtain ⟨rfl, hcuts⟩ := Option.ite_none_right_eq_some.1 h
            cases hcuts
            exact ⟨rfl, hxs⟩
          · rintro ⟨heq, hafter⟩
            cases before with
            | nil =>
                cases heq
                exact if_pos rfl
            | cons y before =>
                cases heq
                exact absurd (List.mem_append_right _ List.mem_cons_self) hxs

theorem cutFirst_eq_none_iff {c : Char} {cs : List Char} : cutFirst c cs = none ↔ c ∉ cs := by
  induction cs with
  | nil => simp [cutFirst]
  | cons x xs ih => by_cases hx : x = c <;> simp [cutFirst, hx, ih, Ne.symm]

/-- A text is cut at a character that does not occur in front of the cut. -/
theorem cutFirst_of_notMem {c : Char} {before : List Char} (h : c ∉ before) (after : List Char) :
    cutFirst c (before ++ c :: after) = some (before, after) := by
  induction before with
  | nil => exact if_pos rfl
  | cons x before ih =>
      obtain ⟨hx, hbefore⟩ := not_or.1 (mt List.mem_cons.2 h)
      rw [List.cons_append, cutFirst, if_neg (Ne.symm hx), ih hbefore]
      rfl

theorem afterLast_of_notMem {c : Char} {cs : List Char} (h : c ∉ cs) : afterLast c cs = cs := by
  rw [afterLast, cutLast_eq_none_iff.2 h]

theorem afterLast_append {c : Char} {after : List Char} (h : c ∉ after) (before : List Char) :
    afterLast c (before ++ c :: after) = after := by
  rw [afterLast, cutLast_eq_some_iff.2 ⟨rfl, h⟩]

/-- What stands behind a character is a piece of the text. -/
theorem isInfix_afterLast (c : Char) (cs : List Char) : afterLast c cs <:+: cs := by
  unfold afterLast
  split
  · next before after hcut =>
    obtain ⟨rfl, -⟩ := cutLast_eq_some_iff.1 hcut
    exact ⟨before ++ [c], [], by simp⟩
  · exact List.infix_refl cs

/-- A text that is joined from pieces has them as pieces. -/
theorem isInfix_intercalate {sep piece : List Char} {pieces : List (List Char)}
    (h : piece ∈ pieces) : piece <:+: sep.intercalate pieces := by
  induction pieces with
  | nil => cases h
  | cons first rest ih =>
      by_cases hrest : rest = []
      · subst hrest
        obtain rfl := List.mem_singleton.1 h
        exact ⟨[], [], by simp⟩
      · rw [List.intercalate_cons_of_ne_nil hrest]
        rcases List.mem_cons.1 h with rfl | h
        · exact ⟨[], sep ++ sep.intercalate rest, by simp⟩
        · exact (ih h).trans (List.suffix_append _ _).isInfix

theorem isInfix_of_mem_splitOn {c : Char} {cs piece : List Char} (h : piece ∈ cs.splitOn c) :
    piece <:+: cs := by
  have hinfix := @isInfix_intercalate [c] piece _ h
  rwa [List.intercalate_splitOn] at hinfix

/-! ## Patterns -/

variable {pattern : List Char}

theorem isPrefixOf_append_of_length_le {cs : List Char} (h : pattern.length ≤ cs.length)
    (rest : List Char) : pattern.isPrefixOf (cs ++ rest) = pattern.isPrefixOf cs := by
  rw [Bool.eq_iff_iff, List.isPrefixOf_iff_prefix, List.isPrefixOf_iff_prefix]
  constructor
  · exact fun hlead => List.prefix_of_prefix_length_le hlead (List.prefix_append cs rest) h
  · exact fun hlead => hlead.trans (List.prefix_append cs rest)

/-- A pattern without some character of a text starts the text whatever follows, or not at all. -/
theorem isPrefixOf_append_of_mem {c : Char} {cs : List Char} (hmem : c ∈ cs) (hc : c ∉ pattern)
    (rest : List Char) : pattern.isPrefixOf (cs ++ rest) = pattern.isPrefixOf cs := by
  rw [Bool.eq_iff_iff, List.isPrefixOf_iff_prefix, List.isPrefixOf_iff_prefix]
  constructor
  · intro hlead
    rcases List.prefix_or_prefix_of_prefix hlead (List.prefix_append cs rest) with h | h
    · exact h
    · exact absurd (h.subset hmem) hc
  · exact fun hlead => hlead.trans (List.prefix_append cs rest)

/-- What starts with a word and a character that ends it has this word in front of the first such
character. -/
theorem isPrefixOf_concat {c : Char} {word front : List Char} (hword : c ∉ word)
    (hfront : c ∉ front) (rest : List Char) :
    (word ++ [c]).isPrefixOf (front ++ c :: rest) = (front == word) := by
  rw [Bool.eq_iff_iff, List.isPrefixOf_iff_prefix, beq_iff_eq]
  constructor
  · rintro ⟨tail, htail⟩
    rw [List.append_assoc, List.singleton_append] at htail
    have hcut := cutFirst_of_notMem hfront rest
    rw [← htail, cutFirst_of_notMem hword] at hcut
    cases hcut
    rfl
  · rintro rfl
    exact ⟨rest, by simp⟩

theorem occurs_iff_infix {cs : List Char} : occurs pattern cs = true ↔ pattern <:+: cs := by
  induction cs with
  | nil => simp [occurs]
  | cons c cs ih =>
      rw [occurs, Bool.or_eq_true, ih, List.isPrefixOf_iff_prefix, List.infix_cons_iff]

/-- A pattern does not reach into a text without its last character. -/
theorem infix_of_infix_append {cs tail : List Char} {c : Char}
    (hpattern : pattern.getLast? = some c) (hc : c ∉ tail) (h : pattern <:+: cs ++ tail) :
    pattern <:+: cs := by
  obtain ⟨front, rfl⟩ := List.getLast?_eq_some_iff.1 hpattern
  obtain ⟨before, after, htext⟩ := h
  rcases List.append_eq_append_iff.1 htext with ⟨more, rfl, -⟩ | ⟨more, hmore, rfl⟩
  · exact ⟨before, more, rfl⟩
  · rcases List.eq_nil_or_concat more with rfl | ⟨more, d, rfl⟩
    · exact ⟨before, [], by simpa using hmore⟩
    · rw [List.concat_eq_append, ← List.append_assoc, ← List.append_assoc] at hmore
      obtain ⟨-, hlast⟩ := List.append_inj' hmore rfl
      cases hlast
      exact absurd (by simp) hc

theorem cutAround_append_self (pattern rest : List Char) :
    cutAround pattern (pattern ++ rest) = some ([], rest) := by
  have hlead : pattern.isPrefixOf (pattern ++ rest) = true :=
    List.isPrefixOf_iff_prefix.2 (List.prefix_append pattern rest)
  cases htext : pattern ++ rest with
  | nil =>
      obtain ⟨rfl, rfl⟩ := List.append_eq_nil_iff.1 htext
      rfl
  | cons c cs =>
      rw [cutAround, ← htext, if_pos hlead, List.drop_left]

/-- The cut at a pattern is made whatever follows the pattern. -/
theorem cutAround_of_cutAround {cs before after : List Char}
    (h : cutAround pattern cs = some (before, after)) (rest : List Char) :
    cutAround pattern (before ++ pattern ++ rest) = some (before, rest) := by
  induction cs generalizing before after with
  | nil =>
      obtain ⟨hpattern, hcut⟩ := Option.ite_none_right_eq_some.1 h
      obtain rfl := List.isEmpty_iff.1 hpattern
      cases hcut
      exact cutAround_append_self [] rest
  | cons c cs ih =>
      rw [cutAround] at h
      split at h
      · cases h
        exact cutAround_append_self pattern rest
      · next hlead =>
        obtain ⟨⟨a, b⟩, hcut, heq⟩ := Option.map_eq_some_iff.1 h
        cases heq
        have hle : pattern.length ≤ (c :: (a ++ pattern)).length := by simp; omega
        rw [eq_append_of_cutAround hcut, ← List.cons_append,
          isPrefixOf_append_of_length_le hle] at hlead
        rw [List.cons_append, List.cons_append, cutAround, ← List.cons_append,
          isPrefixOf_append_of_length_le hle, if_neg hlead, ih hcut]
        rfl

/-- Without an occurrence of the pattern nothing is left. -/
theorem through_cases (pattern cs : List Char) :
    (through pattern cs).2 = [] ∨ ∃ before, (through pattern cs).1 = before ++ pattern := by
  induction cs with
  | nil => exact .inl rfl
  | cons c cs ih =>
      rw [through]
      split
      · exact .inr ⟨[], rfl⟩
      · rcases ih with hnil | ⟨before, hbefore⟩
        · exact .inl hnil
        · exact .inr ⟨c :: before, congrArg (c :: ·) hbefore⟩

/-- The text through the first occurrence of a pattern, if there is one. -/
theorem through_append_of_infix {cs : List Char} (hne : pattern ≠ []) (h : pattern <:+: cs)
    (rest : List Char) :
    through pattern (cs ++ rest) = ((through pattern cs).1, (through pattern cs).2 ++ rest) := by
  induction cs with
  | nil => exact absurd (List.infix_nil.1 h) hne
  | cons c cs ih =>
      have hle := h.length_le
      rw [List.cons_append, through, through, ← List.cons_append,
        isPrefixOf_append_of_length_le hle]
      split
      · rw [List.drop_append_of_le_length hle]
      · next hlead =>
        have hwithin : pattern <:+: cs := by
          rw [List.isPrefixOf_iff_prefix] at hlead
          exact (List.infix_cons_iff.1 h).resolve_left hlead
        rw [ih hwithin]

/-- The cut is made at a pattern that does not end earlier. -/
theorem cutAround_of_not_infix {before : List Char} (hne : pattern ≠ [])
    (h : ¬pattern <:+: before ++ pattern.dropLast) (rest : List Char) :
    cutAround pattern (before ++ pattern ++ rest) = some (before, rest) := by
  induction before with
  | nil => exact cutAround_append_self pattern rest
  | cons c before ih =>
      have hlead : ¬pattern.isPrefixOf (c :: (before ++ pattern ++ rest)) = true := by
        have hle : pattern.length ≤ (c :: (before ++ pattern.dropLast)).length := by
          simp
          omega
        -- The pattern is too short to reach its own last character from here.
        have htext : before ++ pattern ++ rest =
            before ++ pattern.dropLast ++ (pattern.getLast hne :: rest) := by
          rw [List.append_cons, List.append_assoc before pattern.dropLast,
            List.dropLast_concat_getLast]
        rw [htext, ← List.cons_append, isPrefixOf_append_of_length_le hle,
          List.isPrefixOf_iff_prefix]
        exact fun hlead => h hlead.isInfix
      rw [List.cons_append, List.cons_append, cutAround, if_neg hlead,
        ih fun hwithin => h (hwithin.trans (List.suffix_cons c _).isInfix)]
      rfl

theorem through_of_cutAround {cs before after : List Char} (hne : pattern ≠ [])
    (h : cutAround pattern cs = some (before, after)) :
    through pattern cs = (before ++ pattern, after) := by
  induction cs generalizing before after with
  | nil =>
      obtain ⟨hpattern, -⟩ := Option.ite_none_right_eq_some.1 h
      exact absurd (List.isEmpty_iff.1 hpattern) hne
  | cons c cs ih =>
      rw [cutAround] at h
      rw [through]
      split at h
      · next hlead =>
        cases h
        rw [if_pos hlead, List.nil_append]
      · next hlead =>
        obtain ⟨⟨a, b⟩, hcut, heq⟩ := Option.map_eq_some_iff.1 h
        cases heq
        rw [if_neg hlead, ih hcut]
        rfl

end FilterEncoding.Chars

namespace FilterEncoding.Text

theorem cutLast_eq_none_iff {c : Char} {s : String} : cutLast c s = none ↔ c ∉ s.toList := by
  rw [cutLast, Option.map_eq_none_iff, Chars.cutLast_eq_none_iff]

theorem cutLast_eq_some_iff {c : Char} {s before after : String} :
    cutLast c s = some (before, after) ↔
      s.toList = before.toList ++ c :: after.toList ∧ c ∉ after.toList := by
  rw [cutLast, Option.map_eq_some_iff, ← Chars.cutLast_eq_some_iff]
  constructor
  · rintro ⟨⟨front, rest⟩, hcut, heq⟩
    cases heq
    rwa [String.toList_ofList, String.toList_ofList]
  · exact fun hcut => ⟨_, hcut, by simp⟩

end FilterEncoding.Text
