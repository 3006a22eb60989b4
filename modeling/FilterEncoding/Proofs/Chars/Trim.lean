import FilterEncoding.Text
import Mathlib.Data.List.DropRight

/-!
# Trimmed texts

A trimmed text stays as it is when it is trimmed again.  Trimming does not reach beyond a character
that is not blank.
-/

namespace FilterEncoding

namespace Chars

/-- What is left of a text does not start with a blank. -/
theorem trimStart_trim (cs : List Char) : trimStart (trim cs) = trim cs := by
  unfold trim
  have hpre : trimEnd (trimStart cs) <+: trimStart cs := List.rdropWhile_prefix _ _
  cases hend : trimEnd (trimStart cs) with
  | nil => rfl
  | cons c rest =>
      obtain ⟨tail, htail⟩ := hend ▸ hpre
      have hne : trimStart cs ≠ [] := by
        rw [← htail]
        exact List.cons_ne_nil _ _
      have hhead : isBlank ((trimStart cs).head hne) = false :=
        List.head_dropWhile_not isBlank hne
      simp only [← htail, List.cons_append, List.head_cons] at hhead
      exact trimStart_eq_self hhead

/-- What is left of a text does not end with a blank. -/
theorem trimEnd_trim (cs : List Char) : trimEnd (trim cs) = trim cs :=
  List.rdropWhile_idempotent _ _

theorem trim_trim (cs : List Char) : trim (trim cs) = trim cs := by
  calc trim (trim cs) = trimEnd (trimStart (trim cs)) := rfl
    _ = trimEnd (trim cs) := by rw [trimStart_trim]
    _ = trim cs := trimEnd_trim cs

/-- A trimmed text is a piece of the text. -/
theorem trim_infix (cs : List Char) : trim cs <:+: cs := by
  have hend : trimEnd (trimStart cs) <+: trimStart cs := List.rdropWhile_prefix _ _
  have hstart : trimStart cs <:+ cs := List.dropWhile_suffix _
  exact hend.isInfix.trans hstart.isInfix

/-- What is trimmed at the end of a text is blank. -/
theorem exists_trimEnd_append (cs : List Char) :
    ∃ blanks, cs = trimEnd cs ++ blanks ∧ ∀ c ∈ blanks, isBlank c = true := by
  refine ⟨(cs.reverse.takeWhile isBlank).reverse, ?_, fun c hc => ?_⟩
  · rw [trimEnd, ← List.reverse_append, List.takeWhile_append_dropWhile, List.reverse_reverse]
  · exact List.all_eq_true.1 List.all_takeWhile c (List.mem_reverse.1 hc)

/-- Trimming leaves all characters that are not blank. -/
theorem mem_trim {c : Char} (hc : isBlank c = false) {cs : List Char} : c ∈ trim cs ↔ c ∈ cs := by
  have hinfix : trim cs <:+: cs := trim_infix cs
  refine ⟨fun h => hinfix.subset h, fun h => ?_⟩
  have hstart : c ∈ trimStart cs := by
    rw [← List.takeWhile_append_dropWhile (p := isBlank) (l := cs), List.mem_append] at h
    refine h.resolve_left fun hblank => ?_
    rw [List.all_eq_true.1 List.all_takeWhile c hblank] at hc
    cases hc
  obtain ⟨blanks, htrim, hblanks⟩ := exists_trimEnd_append (trimStart cs)
  rw [htrim, List.mem_append] at hstart
  refine hstart.resolve_right fun hblank => ?_
  rw [hblanks c hblank] at hc
  cases hc

section NotBlank

variable {c : Char} (hc : isBlank c = false) (front behind : List Char)
include hc

theorem trimStart_append_cons :
    trimStart (front ++ c :: behind) = trimStart front ++ c :: behind := by
  induction front with
  | nil => exact trimStart_eq_self hc
  | cons d front ih =>
      unfold trimStart at ih ⊢
      rw [List.cons_append, List.dropWhile_cons, List.dropWhile_cons]
      split
      · exact ih
      · rfl

theorem trimEnd_append_cons :
    trimEnd (front ++ c :: behind) = front ++ c :: trimEnd behind := by
  have h := trimStart_append_cons hc behind.reverse front.reverse
  unfold trimStart at h
  simp [trimEnd, h]

theorem trim_append_cons :
    trim (front ++ c :: behind) = trimStart front ++ c :: trimEnd behind := by
  rw [trim, trimStart_append_cons hc, trimEnd_append_cons hc]

end NotBlank

/-- A text that does not start with a blank. -/
theorem trimStart_eq_self_iff {cs : List Char} :
    trimStart cs = cs ↔ ∀ c ∈ cs.head?, isBlank c = false := by
  cases cs with
  | nil => simp
  | cons c cs =>
      constructor
      · intro h d hd
        cases hd
        by_contra hblank
        have hlength : (trimStart cs).length ≤ cs.length := (List.dropWhile_suffix _).length_le
        have hdrop : trimStart (c :: cs) = trimStart cs :=
          List.dropWhile_cons_of_pos (Bool.not_eq_false _ ▸ hblank)
        rw [← hdrop, h, List.length_cons] at hlength
        omega
      · intro h
        exact trimStart_eq_self (h c rfl)

/-- From `!` to `~`, no character is blank. -/
theorem isBlank_eq_false_of_bounds {c : Char} (h : 33 ≤ c.toNat ∧ c.toNat ≤ 126) :
    isBlank c = false := by
  rw [← Bool.not_eq_true, isBlank, within_iff]
  simp only [blankRanges, List.mem_cons, List.not_mem_nil, or_false, not_exists, not_and]
  rintro ⟨low, high⟩ hrange hlow
  simp only [Prod.mk.injEq] at hrange
  omega

theorem isBlank_toLower (c : Char) : isBlank c.toLower = isBlank c := by
  rcases toLower_cases c with h | ⟨hbounds, h⟩
  · rw [h]
  · rw [isBlank_eq_false_of_bounds (by omega : 33 ≤ c.toNat ∧ c.toNat ≤ 126)]
    exact isBlank_eq_false_of_bounds (by omega)

/-- Texts that differ in the case of letters only start with blanks together. -/
theorem trimStart_eq_self_of_lower_eq {as bs : List Char} (h : lower as = lower bs)
    (hbs : trimStart bs = bs) : trimStart as = as := by
  rw [trimStart_eq_self_iff] at hbs ⊢
  intro a ha
  have hhead : (lower as).head? = (lower bs).head? := congrArg List.head? h
  rw [lower, lower, List.head?_map, List.head?_map, Option.mem_def.1 ha] at hhead
  obtain ⟨b, hb, hlower⟩ := Option.map_eq_some_iff.1 hhead.symm
  rw [← isBlank_toLower a, ← hlower, isBlank_toLower]
  exact hbs b hb

end Chars

namespace Text

theorem trim_trim (s : String) : trim (trim s) = trim s := by
  unfold trim
  rw [String.toList_ofList, Chars.trim_trim]

end Text

end FilterEncoding
