import FilterEncoding.Proofs.Number.Grammar
import FilterEncoding.Text

/-!
# Numeric literals

A floating-point literal is recognised from its overall form and a decimal numeral by scanning.
Both accept the same texts, but for the sign (`isPlainFloat_iff`).  `isNumeric_iff` says what is a
number in the wide sense beside the decimal numerals.
-/

namespace FilterEncoding.Number

/-! ## The overall form -/

/-- A character in front of an exponent. -/
def isBeforeExponent (c : Char) : Bool :=
  c != 'e' && c != 'E'

theorem isBeforeExponent_of_isDigit {c : Char} (h : c.isDigit = true) :
    isBeforeExponent c = true := by
  rw [isBeforeExponent, Bool.and_eq_true, bne_iff_ne, bne_iff_ne]
  constructor
  · rintro rfl
    revert h
    decide
  · rintro rfl
    revert h
    decide

theorem isPlainFloat_eq (cs : List Char) :
    isPlainFloat cs = (isMantissa (cs.takeWhile isBeforeExponent) &&
      isExponentPart (cs.dropWhile isBeforeExponent)) :=
  rfl

theorem point_notMem_of_isDigits {cs : List Char} (h : IsDigits cs) : '.' ∉ cs :=
  fun hmem => absurd (h '.' hmem) (by decide)

theorem isDigit_or_point_of_mem {whole : List Char} {fraction : Option (List Char)}
    (hwhole : IsDigits whole) (hfraction : ∀ digits ∈ fraction, IsDigits digits) {c : Char}
    (hc : c ∈ whole ++ fractionText fraction) : c.isDigit = true ∨ c = '.' := by
  rcases List.mem_append.1 hc with hc | hc
  · exact .inl (hwhole c hc)
  · cases fraction with
    | none => cases hc
    | some digits =>
        rcases List.mem_cons.1 hc with rfl | hc
        · exact .inr rfl
        · exact .inl (hfraction digits rfl c hc)

theorem count_point_le {whole : List Char} {fraction : Option (List Char)}
    (hwhole : IsDigits whole) (hfraction : ∀ digits ∈ fraction, IsDigits digits) :
    (whole ++ fractionText fraction).count '.' ≤ 1 := by
  rw [List.count_append, List.count_eq_zero_of_not_mem (point_notMem_of_isDigits hwhole)]
  cases fraction with
  | none => decide
  | some digits =>
      have hdigits := point_notMem_of_isDigits (hfraction digits rfl)
      have hcount : (fractionText (some digits)).count '.' = 1 := by
        rw [fractionText, List.count_cons_self, List.count_eq_zero_of_not_mem hdigits]
      omega

/-- Digits with at most one point among them are those in front of it and those behind it. -/
theorem exists_fraction_of_count_point_le {cs : List Char}
    (hall : ∀ c ∈ cs, c.isDigit = true ∨ c = '.') (hcount : cs.count '.' ≤ 1) :
    ∃ whole fraction, IsDigits whole ∧ (∀ digits ∈ fraction, IsDigits digits) ∧
      cs = whole ++ fractionText fraction := by
  have hsplit := List.takeWhile_append_dropWhile (p := Char.isDigit) (l := cs)
  have hwhole := isDigits_takeWhile cs
  have hhead := cs.head?_dropWhile_not Char.isDigit
  generalize cs.takeWhile Char.isDigit = whole at hsplit hwhole
  generalize cs.dropWhile Char.isDigit = rest at hsplit hhead
  subst hsplit
  cases rest with
  | nil =>
      refine ⟨whole, none, hwhole, ?_, rfl⟩
      rintro _ ⟨⟩
  | cons c digits =>
      -- The first character that is no digit is the point, and there is no other.
      have hc : c.isDigit = false := by simpa using hhead
      have hmem : c ∈ whole ++ c :: digits := List.mem_append_right _ List.mem_cons_self
      have hpoint : c = '.' := (hall c hmem).resolve_left (by simp [hc])
      rw [hpoint] at hall hcount ⊢
      rw [List.count_append, List.count_cons_self] at hcount
      have hnotMem : '.' ∉ digits := List.count_eq_zero.1 (by omega)
      refine ⟨whole, some digits, hwhole, ?_, rfl⟩
      rintro _ ⟨⟩ d hd
      have hdigit := hall d (List.mem_append_right _ (List.mem_cons_of_mem _ hd))
      exact hdigit.resolve_right fun h => hnotMem (h ▸ hd)

/-- A mantissa is digits, and a point among them or not. -/
theorem isMantissa_iff {cs : List Char} :
    isMantissa cs = true ↔ ∃ whole fraction, IsDigits whole ∧
      (∀ digits ∈ fraction, IsDigits digits) ∧
      (whole = [] → ∃ digits ∈ fraction, digits ≠ []) ∧ cs = whole ++ fractionText fraction := by
  simp only [isMantissa, Bool.and_eq_true, List.all_eq_true, List.any_eq_true, Bool.or_eq_true,
    beq_iff_eq, decide_eq_true_eq]
  constructor
  · rintro ⟨⟨hall, d, hd, hdigit⟩, hcount⟩
    obtain ⟨whole, fraction, hwhole, hfraction, rfl⟩ :=
      exists_fraction_of_count_point_le hall hcount
    refine ⟨whole, fraction, hwhole, hfraction, ?_, rfl⟩
    rintro rfl
    cases fraction with
    | none => cases hd
    | some digits =>
        refine ⟨digits, rfl, ?_⟩
        rintro rfl
        rw [List.mem_singleton.1 hd] at hdigit
        revert hdigit
        decide
  · rintro ⟨whole, fraction, hwhole, hfraction, hnonempty, rfl⟩
    refine ⟨⟨fun c hc => isDigit_or_point_of_mem hwhole hfraction hc, ?_⟩,
      count_point_le hwhole hfraction⟩
    cases whole with
    | cons c whole =>
        exact ⟨c, List.mem_cons_self, hwhole c List.mem_cons_self⟩
    | nil =>
        obtain ⟨digits, hsome, hne⟩ := hnonempty rfl
        obtain ⟨c, ds, rfl⟩ := List.exists_cons_of_ne_nil hne
        rw [Option.mem_def.1 hsome]
        have hc : c ∈ '.' :: c :: ds := List.mem_cons_of_mem _ List.mem_cons_self
        exact ⟨c, hc, hfraction _ hsome c List.mem_cons_self⟩

/-- Behind a mantissa stands nothing, or an exponent. -/
theorem isExponentPart_iff {cs : List Char}
    (hhead : ∀ c ∈ cs.head?, c = 'e' ∨ c = 'E') :
    isExponentPart cs = true ↔ ∃ exponent : Option Exponent,
      (∀ e ∈ exponent, e.IsWellFormed) ∧ cs = exponentText exponent := by
  cases cs with
  | nil =>
      refine ⟨fun _ => ⟨none, ?_, rfl⟩, fun _ => rfl⟩
      rintro e ⟨⟩
  | cons letter cs =>
      rw [isExponentPart, Bool.and_eq_true, Bool.not_eq_true', List.isEmpty_eq_false_iff,
        List.all_eq_true]
      constructor
      · rintro ⟨hnonempty, hdigits⟩
        refine ⟨some ⟨letter, (scanSign cs).1, (scanSign cs).2⟩, ?_, ?_⟩
        · rintro e ⟨⟩
          exact ⟨hhead letter rfl, isSign_of_scanSign, hdigits, hnonempty⟩
        · rw [exponentText, scanSign_append]
      · rintro ⟨exponent, hwf, hcs⟩
        cases exponent with
        | none => cases hcs
        | some e =>
            obtain ⟨-, hsign, hdigits, hnonempty⟩ := hwf e rfl
            have hdigit : ∀ c ∈ e.digits.head?, ¬IsSign c := fun c hc =>
              not_isSign_of_isDigit (hdigits c (List.mem_of_mem_head? hc))
            rw [(List.cons.inj hcs).2, scanSign_append_of_head hsign hdigit]
            exact ⟨hnonempty, hdigits⟩

/-- An unsigned text has the form of a floating-point literal exactly if it is that of a numeral
without a sign. -/
theorem isPlainFloat_iff {cs : List Char} :
    isPlainFloat cs = true ↔
      ∃ n : Numeral, n.IsWellFormed ∧ n.sign = none ∧ n.unsignedText = cs := by
  rw [isPlainFloat_eq, Bool.and_eq_true, isMantissa_iff]
  constructor
  · rintro ⟨⟨whole, fraction, hwhole, hfraction, hnonempty, hmantissa⟩, hexponent⟩
    have hhead : ∀ c ∈ (cs.dropWhile isBeforeExponent).head?, c = 'e' ∨ c = 'E' := by
      intro c hc
      have hnot := cs.head?_dropWhile_not isBeforeExponent
      rw [Option.mem_def.1 hc] at hnot
      simpa [isBeforeExponent, Decidable.or_iff_not_imp_left] using hnot
    obtain ⟨exponent, hwf, htext⟩ := (isExponentPart_iff hhead).1 hexponent
    refine ⟨⟨none, whole, fraction, exponent⟩, ⟨?_, hwhole, hfraction, hnonempty, hwf⟩, rfl, ?_⟩
    · rintro c ⟨⟩
    · rw [Numeral.unsignedText, ← List.append_assoc, ← hmantissa, ← htext,
        List.takeWhile_append_dropWhile]
  · rintro ⟨n, hwf, -, rfl⟩
    have hmantissa : ∀ c ∈ n.whole ++ fractionText n.fraction, isBeforeExponent c = true := by
      intro c hc
      rcases isDigit_or_point_of_mem hwf.whole hwf.fraction hc with hdigit | rfl
      · exact isBeforeExponent_of_isDigit hdigit
      · rfl
    have hexponent : ∀ c ∈ (exponentText n.exponent).head?, isBeforeExponent c = false := by
      intro c hc
      rcases head?_exponentText hwf.exponent c hc with rfl | rfl <;> rfl
    obtain ⟨htake, hdrop⟩ := takeWhile_run hmantissa hexponent
    rw [Numeral.unsignedText, ← List.append_assoc, htake, hdrop]
    refine ⟨⟨n.whole, n.fraction, hwf.whole, hwf.fraction, hwf.nonempty, rfl⟩, ?_⟩
    exact (isExponentPart_iff (head?_exponentText hwf.exponent)).2 ⟨n.exponent, hwf.exponent, rfl⟩

/-- A decimal numeral is a floating-point literal with an optional sign. -/
theorem isDecimal_eq (text : String) :
    isDecimal text = isPlainFloat (scanSign text.toList).2 := by
  rw [Bool.eq_iff_iff, isDecimal_iff, isPlainFloat_iff]
  constructor
  · rintro ⟨n, hwf, htext⟩
    refine ⟨{ n with sign := none }, ⟨?_, hwf.whole, hwf.fraction, hwf.nonempty, hwf.exponent⟩,
      rfl, ?_⟩
    · rintro c ⟨⟩
    · rw [← htext, hwf.scanSign_text]
      rfl
  · rintro ⟨n, hwf, -, htext⟩
    refine ⟨{ n with sign := (scanSign text.toList).1 },
      ⟨isSign_of_scanSign, hwf.whole, hwf.fraction, hwf.nonempty, hwf.exponent⟩, ?_⟩
    rw [Numeral.text_eq]
    show (scanSign text.toList).1.toList ++ n.unsignedText = text.toList
    rw [htext, scanSign_append]

/-! ## Numbers in the wide sense -/

/-- The words for infinity and not-a-number, in any letter case. -/
def IsSpecialWord (text : String) : Prop :=
  ∃ word ∈ ["inf", "infinity", "nan"], Text.same word text = true

/-- Hexadecimal digits behind `0x`. -/
def IsHexadecimalInteger (text : String) : Prop :=
  ∃ opening ∈ ["0x", "0X"], ∃ digits, text = opening ++ digits ∧ digits ≠ "" ∧
    ∀ c ∈ digits.toList, c ∈ "0123456789abcdefABCDEF".toList

/-- What stands behind an optional sign. -/
theorem exists_sign_iff {P : String → Prop}
    (hP : ∀ body, P body → ∀ c ∈ body.toList.head?, ¬IsSign c) {text : String} :
    (∃ sign ∈ ["", "+", "-"], ∃ body, text = sign ++ body ∧ P body) ↔
      P (String.ofList (scanSign text.toList).2) := by
  have hbody : ∀ (sign : Option Char) (body : String), (∀ c ∈ sign, IsSign c) → P body →
      scanSign (sign.toList ++ body.toList) = (sign, body.toList) :=
    fun sign body hsign h => scanSign_append_of_head hsign (hP body h)
  constructor
  · rintro ⟨sign, hsign, body, rfl, h⟩
    have hscan : (scanSign (sign ++ body).toList).2 = body.toList := by
      rw [String.toList_append]
      simp only [List.mem_cons, List.not_mem_nil, or_false] at hsign
      rcases hsign with rfl | rfl | rfl
      · exact congrArg Prod.snd (hbody none body (by rintro c ⟨⟩) h)
      · exact congrArg Prod.snd (hbody (some '+') body (by rintro c ⟨⟩; exact .inl rfl) h)
      · exact congrArg Prod.snd (hbody (some '-') body (by rintro c ⟨⟩; exact .inr rfl) h)
    rwa [hscan, String.ofList_toList]
  · intro h
    refine ⟨String.ofList (scanSign text.toList).1.toList, ?_, _, ?_, h⟩
    · cases hsign : (scanSign text.toList).1 with
      | none => exact List.mem_cons_self
      | some c =>
          rcases isSign_of_scanSign c hsign with rfl | rfl
          · decide
          · decide
    · rw [← String.ofList_append, scanSign_append, String.ofList_toList]

theorem specialWords_contains_iff {cs : List Char} :
    specialWords.contains (Chars.lower cs) = true ↔ IsSpecialWord (String.ofList cs) := by
  have hwords :
      specialWords = ["inf", "infinity", "nan"].map fun word => Chars.lower word.toList := by
    decide
  rw [List.contains_iff_mem, hwords, List.mem_map]
  simp only [IsSpecialWord, Text.same_iff, String.toList_ofList]

/-- A character whose code lies in a range that a list covers. -/
theorem mem_of_codes {c : Char} {cs : List Char} {first count : Nat} (hlow : first ≤ c.toNat)
    (hhigh : c.toNat < first + count) (h : ∀ k < count, Char.ofNat (first + k) ∈ cs) : c ∈ cs := by
  have hc := h (c.toNat - first) (by omega)
  rwa [Nat.add_sub_cancel' hlow, Char.ofNat_toNat] at hc

theorem isHexDigit_iff {c : Char} :
    isHexDigit c = true ↔ c ∈ "0123456789abcdefABCDEF".toList := by
  constructor
  · intro h
    have hlist : "0123456789abcdefABCDEF".toList =
        ['0', '1', '2', '3', '4', '5', '6', '7', '8', '9', 'a', 'b', 'c', 'd', 'e', 'f',
          'A', 'B', 'C', 'D', 'E', 'F'] := rfl
    rw [hlist]
    simp only [isHexDigit, Char.isDigit, Bool.or_eq_true, Bool.and_eq_true, decide_eq_true_eq,
      ge_iff_le, Char.le_def, UInt32.le_iff_toNat_le] at h
    rcases h with (h | h) | h
    · change 48 ≤ c.toNat ∧ c.toNat ≤ 57 at h
      exact @mem_of_codes _ _ 48 10 h.1 (by omega) (by decide)
    · change 97 ≤ c.toNat ∧ c.toNat ≤ 102 at h
      exact @mem_of_codes _ _ 97 6 h.1 (by omega) (by decide)
    · change 65 ≤ c.toNat ∧ c.toNat ≤ 70 at h
      exact @mem_of_codes _ _ 65 6 h.1 (by omega) (by decide)
  · have hall : "0123456789abcdefABCDEF".toList.all isHexDigit = true := rfl
    exact List.all_eq_true.1 hall c

theorem isHexadecimal_iff {cs : List Char} :
    isHexadecimal cs = true ↔ IsHexadecimalInteger (String.ofList cs) := by
  constructor
  · intro h
    unfold isHexadecimal at h
    split at h
    · next x digits =>
      simp only [Bool.and_eq_true, Bool.or_eq_true, beq_iff_eq, Bool.not_eq_true',
        List.isEmpty_eq_false_iff, List.all_eq_true, isHexDigit_iff] at h
      obtain ⟨⟨hx, hne⟩, hdigits⟩ := h
      have hopening : String.ofList ['0', x] ∈ ["0x", "0X"] := by
        rcases hx with rfl | rfl
        · decide
        · decide
      refine ⟨_, hopening, String.ofList digits, ?_, ?_, ?_⟩
      · rw [← String.ofList_append]
        rfl
      · rw [ne_eq, ← String.toList_eq_nil_iff, String.toList_ofList]
        exact hne
      · rw [String.toList_ofList]
        exact hdigits
    · cases h
  · rintro ⟨opening, hopening, digits, htext, hne, hdigits⟩
    have hcs : cs = opening.toList ++ digits.toList := by
      rw [← String.toList_append, ← htext, String.toList_ofList]
    have hne' : digits.toList ≠ [] := mt String.toList_eq_nil_iff.1 hne
    have hall : digits.toList.all isHexDigit = true :=
      List.all_eq_true.2 fun c hc => isHexDigit_iff.2 (hdigits c hc)
    simp only [List.mem_cons, List.not_mem_nil, or_false] at hopening
    rcases hopening with rfl | rfl
    · have hchars : cs = '0' :: 'x' :: digits.toList := hcs
      simp [hchars, isHexadecimal, hne', hall]
    · have hchars : cs = '0' :: 'X' :: digits.toList := hcs
      simp [hchars, isHexadecimal, hne', hall]

theorem not_isSign_head?_of_isSpecialWord {body : String} (h : IsSpecialWord body) :
    ∀ c ∈ body.toList.head?, ¬IsSign c := by
  obtain ⟨word, hword, hsame⟩ := h
  rw [Text.same_iff] at hsame
  have hwords : ∀ word ∈ ["inf", "infinity", "nan"], '+' ∉ word.toList ∧ '-' ∉ word.toList := by
    decide
  -- Below the letters, the same characters occur in every letter case.
  have hmem : ∀ c ∈ body.toList, c.toNat < 65 → c ∈ word.toList := by
    intro c hc hlow
    rwa [← Chars.mem_lower_iff hlow, ← hsame, Chars.mem_lower_iff hlow] at hc
  intro c hc
  have hc' := List.mem_of_mem_head? hc
  rintro (rfl | rfl)
  · exact (hwords word hword).1 (hmem _ hc' (by decide))
  · exact (hwords word hword).2 (hmem _ hc' (by decide))

theorem not_isSign_head?_of_isHexadecimalInteger {body : String} (h : IsHexadecimalInteger body) :
    ∀ c ∈ body.toList.head?, ¬IsSign c := by
  obtain ⟨opening, hopening, digits, rfl, -⟩ := h
  intro c hc
  have hzero : c = '0' := by
    rw [String.toList_append] at hc
    simp only [List.mem_cons, List.not_mem_nil, or_false] at hopening
    rcases hopening with rfl | rfl
    · exact (Option.some.inj hc).symm
    · exact (Option.some.inj hc).symm
  rw [hzero]
  exact not_isSign_of_isDigit rfl

/-- The numbers in the wide sense that are no decimal numerals. -/
theorem isNumeric_iff {text : String} :
    isNumeric text = true ↔ isDecimal text = true ∨
      ∃ sign ∈ ["", "+", "-"], ∃ body, text = sign ++ body ∧
        (IsSpecialWord body ∨ IsHexadecimalInteger body) := by
  have hhead : ∀ body, IsSpecialWord body ∨ IsHexadecimalInteger body →
      ∀ c ∈ body.toList.head?, ¬IsSign c := by
    rintro body (h | h)
    · exact not_isSign_head?_of_isSpecialWord h
    · exact not_isSign_head?_of_isHexadecimalInteger h
  rw [exists_sign_iff hhead, isDecimal_eq, ← specialWords_contains_iff, ← isHexadecimal_iff]
  simp only [isNumeric, Bool.or_eq_true]
  exact or_assoc.trans or_left_comm

/-- A decimal numeral is a number in the wide sense. -/
theorem isNumeric_of_isDecimal {text : String} (h : isDecimal text = true) :
    isNumeric text = true :=
  isNumeric_iff.2 (.inl h)

end FilterEncoding.Number
