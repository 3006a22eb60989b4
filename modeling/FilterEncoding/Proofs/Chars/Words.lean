import FilterEncoding.Proofs.Chars.Trim

/-!
# Words and pieces

A text that is cut at its blanks falls into its words, whatever blanks stand between them and
around them (`Chars.words_of_spaced`).  A text that is cut around a pattern of one character falls
into its pieces between the occurrences of this character (`Chars.splitAround_singleton`).
-/

namespace FilterEncoding

namespace Chars

/-! ## Words -/

/-- A word is what is left of a text when it is cut at its blanks. -/
structure IsWord (w : List Char) : Prop where
  ne_nil : w ≠ []
  notBlank : ∀ c ∈ w, isBlank c = false

/-- A text that consists of words, with blanks between them and perhaps around them. -/
inductive Spaced : List (List Char) → List Char → Prop
  | nil : Spaced [] []
  | blank {ws : List (List Char)} {c : Char} {cs : List Char} (hc : isBlank c = true)
      (h : Spaced ws cs) : Spaced ws (c :: cs)
  | word {w : List Char} {ws : List (List Char)} {cs : List Char}
      (hend : ∀ c ∈ cs.head?, isBlank c = true) (h : Spaced ws cs) : Spaced (w :: ws) (w ++ cs)

/-- Words with one blank between any two of them. -/
theorem spaced_intercalate (ws : List (List Char)) : Spaced ws ([' '].intercalate ws) := by
  induction ws with
  | nil => exact .nil
  | cons w ws ih =>
      cases ws with
      | nil =>
          have hword : Spaced [w] (w ++ []) := .word (fun c hc => by cases hc) .nil
          rw [List.intercalate_singleton]
          rwa [List.append_nil] at hword
      | cons next ws =>
          rw [List.intercalate_cons_cons, List.append_assoc]
          refine .word (fun c hc => ?_) (.blank (by decide) ih)
          obtain rfl := Option.mem_some_iff.1 hc
          decide

@[simp]
theorem words_nil : words [] = [] := by
  simp [words]

/-- No word goes on behind a blank. -/
theorem words_append_cons {c : Char} (hc : isBlank c = true) (front behind : List Char) :
    words (front ++ c :: behind) = words front ++ words behind := by
  rw [words, List.splitOnP_append_cons front behind hc, List.filter_append, words, words]

theorem words_cons {c : Char} (hc : isBlank c = true) (cs : List Char) :
    words (c :: cs) = words cs := by
  rw [← List.nil_append (c :: cs), words_append_cons hc, words_nil, List.nil_append]

theorem words_eq_nil {cs : List Char} (h : ∀ c ∈ cs, isBlank c = true) : words cs = [] := by
  induction cs with
  | nil => exact words_nil
  | cons c cs ih =>
      rw [List.forall_mem_cons] at h
      rw [words_cons h.1, ih h.2]

theorem words_eq_singleton {w : List Char} (h : IsWord w) : words w = [w] := by
  have hne : w.isEmpty = false := List.isEmpty_eq_false_iff.2 h.ne_nil
  rw [words, List.splitOnP_eq_singleton h.notBlank, List.filter_cons_of_pos (by rw [hne]; rfl),
    List.filter_nil]

theorem words_append {w cs : List Char} (hw : IsWord w) (hend : ∀ c ∈ cs.head?, isBlank c = true) :
    words (w ++ cs) = w :: words cs := by
  cases cs with
  | nil => rw [List.append_nil, words_eq_singleton hw, words_nil]
  | cons c cs =>
      have hc := hend c rfl
      rw [words_append_cons hc, words_eq_singleton hw, words_cons hc, List.singleton_append]

/-- A spaced text has the words it consists of. -/
theorem words_of_spaced {ws : List (List Char)} {cs : List Char} (h : Spaced ws cs)
    (hws : ∀ w ∈ ws, IsWord w) : words cs = ws := by
  induction h with
  | nil => exact words_nil
  | blank hc _ ih => rw [words_cons hc, ih hws]
  | word hend _ ih =>
      rw [List.forall_mem_cons] at hws
      rw [words_append hws.1 hend, ih hws.2]

theorem words_append_of_blank (cs : List Char) {blanks : List Char}
    (h : ∀ c ∈ blanks, isBlank c = true) : words (cs ++ blanks) = words cs := by
  cases blanks with
  | nil => rw [List.append_nil]
  | cons c blanks =>
      rw [List.forall_mem_cons] at h
      rw [words_append_cons h.1, words_eq_nil h.2, List.append_nil]

theorem words_trimStart (cs : List Char) : words (trimStart cs) = words cs := by
  induction cs with
  | nil => rfl
  | cons c cs ih =>
      cases hc : isBlank c with
      | false => rw [trimStart_eq_self hc]
      | true => rw [words_cons hc, ← ih, trimStart, List.dropWhile_cons_of_pos hc, trimStart]

/-- Blanks around a text make no difference to its words. -/
theorem words_trim (cs : List Char) : words (trim cs) = words cs := by
  obtain ⟨blanks, htrim, hblanks⟩ := exists_trimEnd_append (trimStart cs)
  rw [trim, ← words_append_of_blank _ hblanks, ← htrim, words_trimStart]

/-! ## Pieces -/

/-- A joined text has the characters of its pieces and of what stands between them. -/
theorem mem_or_exists_of_mem_intercalate {c : Char} {sep : List Char} {pieces : List (List Char)}
    (h : c ∈ sep.intercalate pieces) : c ∈ sep ∨ ∃ piece ∈ pieces, c ∈ piece := by
  induction pieces with
  | nil => simp at h
  | cons piece pieces ih =>
      by_cases hne : pieces = []
      · subst hne
        exact .inr ⟨piece, List.mem_cons_self, by simpa using h⟩
      · rw [List.intercalate_cons_of_ne_nil hne, List.mem_append, List.mem_append] at h
        rcases h with (h | h) | h
        · exact .inr ⟨piece, List.mem_cons_self, h⟩
        · exact .inl h
        · exact (ih h).imp_right fun ⟨other, hmem, hc⟩ => ⟨other, List.mem_cons_of_mem _ hmem, hc⟩

theorem splitAround_singleton (c : Char) (cs : List Char) : splitAround [c] cs = cs.splitOn c := by
  unfold splitAround
  induction cs with
  | nil => rfl
  | cons x cs ih =>
      rw [splitSkipping, List.splitOn_cons_eq_if_modifyHead, ih]
      by_cases hx : x = c
      · subst hx
        simpa using ih
      · have hpre : [c].isPrefixOf (x :: cs) = false := by
          rw [List.isPrefixOf_cons_cons, beq_false_of_ne (Ne.symm hx), Bool.false_and]
        rw [hpre, if_neg Bool.false_ne_true, if_neg (mt eq_of_beq hx)]
        cases hpieces : cs.splitOn c with
        | nil => exact absurd hpieces (List.splitOn_ne_nil c cs)
        | cons piece pieces => rfl

end Chars

namespace Text

theorem words_trim (s : String) : words (trim s) = words s := by
  rw [words, toList_trim, Chars.words_trim, words]

end Text

end FilterEncoding
