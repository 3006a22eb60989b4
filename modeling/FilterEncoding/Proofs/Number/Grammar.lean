import FilterEncoding.Proofs.Number.Characters
import Mathlib.Data.List.Basic

/-!
# The grammar of numerals

`Numeral.IsWellFormed` is the grammar of decimal numerals: an optional sign, digits with an optional
point, and an optional exponent, with a digit before or behind the point.

* `Numeral.isWellFormed_of_scan` — what the scanner finds is a numeral of the grammar.
* `Numeral.IsWellFormed.scan_text` — the scanner reads the text of such a numeral to its end.
* `isDecimal_iff` — a text is a decimal numeral if it is the text of one.
-/

namespace FilterEncoding.Number

/-- The signs of numbers. -/
def IsSign (c : Char) : Prop :=
  c = '+' ∨ c = '-'

def IsDigits (cs : List Char) : Prop :=
  ∀ c ∈ cs, c.isDigit = true

/-- A letter, an optional sign and at least one digit. -/
structure Exponent.IsWellFormed (e : Exponent) : Prop where
  letter : e.letter = 'e' ∨ e.letter = 'E'
  sign : ∀ c ∈ e.sign, IsSign c
  digits : IsDigits e.digits
  nonempty : e.digits ≠ []

/-- An optional sign, digits with an optional point and an optional exponent, with at least one
digit before or behind the point. -/
structure Numeral.IsWellFormed (n : Numeral) : Prop where
  sign : ∀ c ∈ n.sign, IsSign c
  whole : IsDigits n.whole
  fraction : ∀ digits ∈ n.fraction, IsDigits digits
  nonempty : n.whole = [] → ∃ digits ∈ n.fraction, digits ≠ []
  exponent : ∀ e ∈ n.exponent, e.IsWellFormed

/-! ## Runs of characters -/

theorem takeWhile_run {p : Char → Bool} {cs rest : List Char} (hcs : ∀ c ∈ cs, p c = true)
    (hrest : ∀ c ∈ rest.head?, p c = false) :
    (cs ++ rest).takeWhile p = cs ∧ (cs ++ rest).dropWhile p = rest := by
  rw [List.takeWhile_append_of_pos hcs, List.dropWhile_append_of_pos hcs]
  cases rest with
  | nil => exact ⟨List.append_nil cs, rfl⟩
  | cons c rest =>
      have hc : p c = false := hrest c rfl
      rw [List.takeWhile_cons_of_neg (by simp [hc]), List.dropWhile_cons_of_neg (by simp [hc])]
      exact ⟨List.append_nil cs, rfl⟩

theorem isDigits_takeWhile (cs : List Char) : IsDigits (cs.takeWhile Char.isDigit) :=
  fun _ hc => isDigit_of_mem_takeWhile hc

theorem isSign_of_scanSign {cs : List Char} : ∀ c ∈ (scanSign cs).1, IsSign c := by
  intro c hc
  cases cs with
  | nil => cases hc
  | cons d ds =>
      rw [scanSign] at hc
      split at hc
      · next hd =>
        cases hc
        exact hd
      · cases hc

/-- A sign is read where one stands. -/
theorem scanSign_append_of_head {sign : Option Char} {body : List Char}
    (hsign : ∀ c ∈ sign, IsSign c) (hbody : ∀ c ∈ body.head?, ¬IsSign c) :
    scanSign (sign.toList ++ body) = (sign, body) := by
  cases sign with
  | some c => exact if_pos (hsign c rfl)
  | none =>
      cases body with
      | nil => rfl
      | cons c body => exact if_neg (hbody c rfl)

theorem not_isSign_of_isDigit {c : Char} (h : c.isDigit = true) : ¬IsSign c := by
  rintro (rfl | rfl)
  · revert h
    decide
  · revert h
    decide

/-- What an exponent begins with is neither a digit nor a point. -/
theorem head?_exponentText {exponent : Option Exponent}
    (h : ∀ e ∈ exponent, e.IsWellFormed) :
    ∀ c ∈ (exponentText exponent).head?, c = 'e' ∨ c = 'E' := by
  intro c hc
  cases exponent with
  | none => cases hc
  | some e =>
      cases hc
      exact (h e rfl).letter

/-! ## Scanning -/

theorem isWellFormed_of_scanExponent {cs : List Char} :
    ∀ e ∈ (scanExponent cs).1, e.IsWellFormed := by
  intro e he
  cases cs with
  | nil => cases he
  | cons c cs =>
      simp only [scanExponent] at he
      split at he
      · next hc =>
        cases he
        exact ⟨hc.1, isSign_of_scanSign, isDigits_takeWhile _, hc.2⟩
      · cases he

theorem isDigits_of_scanFraction {whole cs : List Char} :
    ∀ digits ∈ (scanFraction whole cs).1,
      IsDigits digits ∧ (whole = [] → digits ≠ []) := by
  intro digits hdigits
  cases cs with
  | nil => cases hdigits
  | cons c cs =>
      rw [scanFraction] at hdigits
      split at hdigits
      · next hc =>
        cases hdigits
        refine ⟨isDigits_takeWhile cs, ?_⟩
        rintro rfl
        simpa using (Bool.and_eq_true_iff.1 hc).2
      · cases hdigits

/-- What is scanned is a numeral. -/
theorem Numeral.isWellFormed_of_scan {cs rest : List Char} {n : Numeral}
    (h : Numeral.scan cs = some (n, rest)) : n.IsWellFormed := by
  simp only [Numeral.scan] at h
  split at h
  · cases h
  · next hscanned =>
    cases h
    refine ⟨isSign_of_scanSign, isDigits_takeWhile _, fun ds hds => ?_, fun hwhole => ?_,
      isWellFormed_of_scanExponent⟩
    · exact (isDigits_of_scanFraction ds hds).1
    · -- Without whole digits the scan goes on only behind a fraction.
      rw [Bool.and_eq_true, not_and, Bool.not_eq_true, Option.isNone_eq_false_iff,
        Option.isSome_iff_exists] at hscanned
      obtain ⟨ds, hds⟩ := hscanned (List.isEmpty_iff.2 hwhole)
      exact ⟨ds, hds, (isDigits_of_scanFraction ds hds).2 hwhole⟩

theorem scanFraction_fractionText {whole rest : List Char} {fraction : Option (List Char)}
    (hdigits : ∀ digits ∈ fraction, IsDigits digits)
    (hnonempty : whole = [] → ∃ digits ∈ fraction, digits ≠ [])
    (hrest : ∀ c ∈ rest.head?, c.isDigit = false ∧ c ≠ '.') :
    scanFraction whole (fractionText fraction ++ rest) = (fraction, rest) := by
  cases fraction with
  | none =>
      cases rest with
      | nil => rfl
      | cons c rest =>
          have hc : c ≠ '.' := (hrest c rfl).2
          simp [fractionText, scanFraction, hc]
  | some digits =>
      obtain ⟨htake, hdrop⟩ := takeWhile_run (hdigits digits rfl) fun c hc => (hrest c hc).1
      have hsome : ¬(whole = [] ∧ digits = []) := by
        rintro ⟨hwhole, hempty⟩
        obtain ⟨ds, hds, hne⟩ := hnonempty hwhole
        cases hds
        exact hne hempty
      rw [fractionText, List.cons_append, scanFraction, htake, hdrop]
      simp [hsome]

theorem scanExponent_exponentText {exponent : Option Exponent}
    (h : ∀ e ∈ exponent, e.IsWellFormed) :
    scanExponent (exponentText exponent) = (exponent, []) := by
  cases exponent with
  | none => rfl
  | some e =>
      obtain ⟨hletter, hsign, hdigits, hnonempty⟩ := h e rfl
      have hhead : ∀ c ∈ e.digits.head?, ¬IsSign c := fun c hc =>
        not_isSign_of_isDigit (hdigits c (List.mem_of_mem_head? hc))
      obtain ⟨htake, hdrop⟩ := @takeWhile_run _ e.digits [] hdigits fun c hc => by cases hc
      rw [List.append_nil] at htake hdrop
      simp only [exponentText, scanExponent, scanSign_append_of_head hsign hhead, htake, hdrop]
      rw [if_pos ⟨hletter, hnonempty⟩]

namespace Numeral

variable {n : Numeral}

/-- The text of a numeral behind its sign. -/
def unsignedText (n : Numeral) : List Char :=
  n.whole ++ (fractionText n.fraction ++ exponentText n.exponent)

theorem text_eq (n : Numeral) : n.text = n.sign.toList ++ n.unsignedText := by
  simp [text, unsignedText]

namespace IsWellFormed

/-- Behind the digits of a numeral there are none. -/
theorem head?_exponentText (h : n.IsWellFormed) :
    ∀ c ∈ (exponentText n.exponent).head?, c.isDigit = false ∧ c ≠ '.' := by
  intro c hc
  rcases Number.head?_exponentText h.exponent c hc with rfl | rfl
  · decide
  · decide

theorem head?_fractionText (h : n.IsWellFormed) :
    ∀ c ∈ (fractionText n.fraction ++ exponentText n.exponent).head?, c.isDigit = false := by
  intro c hc
  cases hfraction : n.fraction with
  | none =>
      rw [hfraction] at hc
      exact (h.head?_exponentText c hc).1
  | some digits =>
      rw [hfraction] at hc
      cases hc
      rfl

/-- A numeral without its sign begins with a digit or a point. -/
theorem head?_unsignedText (h : n.IsWellFormed) : ∀ c ∈ n.unsignedText.head?, ¬IsSign c := by
  intro c hc
  unfold unsignedText at hc
  cases hwhole : n.whole with
  | cons d digits =>
      rw [hwhole] at hc
      cases hc
      exact not_isSign_of_isDigit (h.whole c (hwhole ▸ List.mem_cons_self))
  | nil =>
      obtain ⟨digits, hfraction, -⟩ := h.nonempty hwhole
      rw [hwhole, Option.mem_def.1 hfraction] at hc
      cases hc
      rintro (h | h)
      · cases h
      · cases h

theorem scanSign_text (h : n.IsWellFormed) : scanSign n.text = (n.sign, n.unsignedText) := by
  rw [text_eq]
  exact scanSign_append_of_head h.sign h.head?_unsignedText

/-- A numeral is scanned as it is written. -/
theorem scan_text (h : n.IsWellFormed) : Numeral.scan n.text = some (n, []) := by
  obtain ⟨htake, hdrop⟩ := takeWhile_run h.whole h.head?_fractionText
  have hfraction := scanFraction_fractionText h.fraction h.nonempty h.head?_exponentText
  have hscans : ¬(n.whole.isEmpty && n.fraction.isNone) = true := by
    rw [Bool.and_eq_true, List.isEmpty_iff, Option.isNone_iff_eq_none]
    rintro ⟨hwhole, hnone⟩
    obtain ⟨digits, hmem, -⟩ := h.nonempty hwhole
    rw [hnone] at hmem
    cases hmem
  simp only [Numeral.scan, h.scanSign_text, unsignedText, htake, hdrop, hfraction,
    scanExponent_exponentText h.exponent]
  rw [if_neg hscans]

end IsWellFormed

end Numeral

theorem isDecimal_iff {text : String} :
    isDecimal text = true ↔ ∃ n : Numeral, n.IsWellFormed ∧ n.text = text.toList := by
  unfold isDecimal
  constructor
  · intro h
    split at h
    · next n hscan =>
      refine ⟨n, Numeral.isWellFormed_of_scan hscan, ?_⟩
      rw [← Numeral.text_append_of_scan hscan, List.append_nil]
    · cases h
  · rintro ⟨n, hwf, htext⟩
    rw [← htext, hwf.scan_text]

end FilterEncoding.Number
