import FilterEncoding.Number.Numeric
import FilterEncoding.Number.Positional

/-!
# The characters of numbers

Numbers are written with ASCII letters and digits, signs and points, whether a request has written
them (`isNumberChar_of_isDecimal`, `isNumberChar_of_isNumeric`) or the library does
(`isNumberChar_of_mem_text`).  So a number can stand outside quotes without changing what a text
around it means.
-/

namespace FilterEncoding.Number

/-- A character that numbers are written with. -/
def isNumberChar (c : Char) : Bool :=
  c.isAlphanum || c == '+' || c == '-' || c == '.'

theorem isNumberChar_of_isDigit {c : Char} (h : c.isDigit = true) : isNumberChar c = true := by
  rw [isNumberChar, Char.isAlphanum, h, Bool.or_true]
  rfl

theorem isNumberChar_of_isAlpha {c : Char} (h : c.isAlpha = true) : isNumberChar c = true := by
  rw [isNumberChar, Char.isAlphanum, h]
  rfl

theorem isDigit_of_mem_takeWhile {c : Char} {cs : List Char} (h : c ∈ cs.takeWhile Char.isDigit) :
    c.isDigit = true :=
  List.all_eq_true.1 List.all_takeWhile c h

/-! ## Numbers that are read -/

/-- What is cut off in front is a sign. -/
theorem isNumberChar_of_mem_scanSign {c : Char} {cs : List Char}
    (h : (scanSign cs).1 = some c) : isNumberChar c = true := by
  cases cs with
  | nil => cases h
  | cons d ds =>
      rw [scanSign] at h
      split at h
      · next hd =>
        cases h
        rcases hd with rfl | rfl <;> decide
      · cases h

theorem isNumberChar_of_mem_fractionText {c : Char} {whole cs : List Char}
    (h : c ∈ fractionText (scanFraction whole cs).1) : isNumberChar c = true := by
  cases cs with
  | nil => cases h
  | cons d ds =>
      rw [scanFraction] at h
      split at h
      · rw [fractionText, List.mem_cons] at h
        rcases h with rfl | h
        · decide
        · exact isNumberChar_of_isDigit (isDigit_of_mem_takeWhile h)
      · cases h

theorem isNumberChar_of_mem_exponentText {c : Char} {cs : List Char}
    (h : c ∈ exponentText (scanExponent cs).1) : isNumberChar c = true := by
  cases cs with
  | nil => cases h
  | cons d ds =>
      simp only [scanExponent] at h
      split at h
      · next hd =>
        rw [exponentText, List.mem_cons, List.mem_append, Option.mem_toList] at h
        rcases h with rfl | h | h
        · rcases hd.1 with rfl | rfl <;> decide
        · exact isNumberChar_of_mem_scanSign h
        · exact isNumberChar_of_isDigit (isDigit_of_mem_takeWhile h)
      · cases h

theorem isNumberChar_of_mem_numeral {c : Char} {cs rest : List Char} {n : Numeral}
    (hscan : Numeral.scan cs = some (n, rest)) (h : c ∈ n.text) : isNumberChar c = true := by
  simp only [Numeral.scan] at hscan
  split at hscan
  · cases hscan
  · cases hscan
    simp only [Numeral.text, List.mem_append, Option.mem_toList] at h
    rcases h with ((h | h) | h) | h
    · exact isNumberChar_of_mem_scanSign h
    · exact isNumberChar_of_isDigit (isDigit_of_mem_takeWhile h)
    · exact isNumberChar_of_mem_fractionText h
    · exact isNumberChar_of_mem_exponentText h

theorem isNumberChar_of_isDecimal {text : String} (h : isDecimal text = true) {c : Char}
    (hc : c ∈ text.toList) : isNumberChar c = true := by
  unfold isDecimal at h
  split at h
  · next n hscan =>
    refine isNumberChar_of_mem_numeral hscan ?_
    rwa [← Numeral.text_append_of_scan hscan, List.append_nil] at hc
  · cases h

theorem isAlpha_of_isAlpha_toLower {c : Char} (h : c.toLower.isAlpha = true) :
    c.isAlpha = true := by
  unfold Char.toLower at h
  split at h
  · next hbounds =>
    have hupper : c.isUpper = true := decide_eq_true hbounds
    exact Bool.or_eq_true_iff.2 (.inl hupper)
  · exact h

theorem isNumberChar_of_specialWord {cs : List Char} (h : specialWords.contains (Chars.lower cs))
    {c : Char} (hc : c ∈ cs) : isNumberChar c = true := by
  have hletters : ∀ word ∈ specialWords, ∀ d ∈ word, d.isAlpha = true := by
    simp [specialWords]
  have hlower : c.toLower.isAlpha = true :=
    hletters _ (List.contains_iff_mem.1 h) _ (List.mem_map_of_mem hc)
  exact isNumberChar_of_isAlpha (isAlpha_of_isAlpha_toLower hlower)

theorem isNumberChar_of_isMantissa {cs : List Char} (h : isMantissa cs = true) {c : Char}
    (hc : c ∈ cs) : isNumberChar c = true := by
  simp only [isMantissa, Bool.and_eq_true, List.all_eq_true, Bool.or_eq_true, beq_iff_eq] at h
  rcases h.1.1 c hc with hdigit | rfl
  · exact isNumberChar_of_isDigit hdigit
  · decide

/-- Behind its letter an exponent part consists of a sign and digits. -/
theorem isNumberChar_of_isExponentPart {letter : Char} {cs : List Char}
    (h : isExponentPart (letter :: cs) = true) {c : Char} (hc : c ∈ cs) :
    isNumberChar c = true := by
  rw [isExponentPart, Bool.and_eq_true, List.all_eq_true] at h
  rw [← scanSign_append cs, List.mem_append, Option.mem_toList] at hc
  rcases hc with hc | hc
  · exact isNumberChar_of_mem_scanSign hc
  · exact isNumberChar_of_isDigit (h.2 c hc)

theorem isNumberChar_of_isPlainFloat {cs : List Char} (h : isPlainFloat cs = true) {c : Char}
    (hc : c ∈ cs) : isNumberChar c = true := by
  unfold isPlainFloat at h
  -- The text is a mantissa, a letter and an exponent; without a letter it is a mantissa only.
  generalize hp : (fun c : Char => c != 'e' && c != 'E') = beforeExponent at h
  rw [Bool.and_eq_true] at h
  rw [← cs.takeWhile_append_dropWhile (p := beforeExponent), List.mem_append] at hc
  rcases hc with hc | hc
  · exact isNumberChar_of_isMantissa h.1 hc
  · have hhead := cs.head?_dropWhile_not beforeExponent
    cases hdrop : cs.dropWhile beforeExponent with
    | nil =>
        rw [hdrop] at hc
        cases hc
    | cons letter rest =>
        rw [hdrop] at h hc hhead
        rcases List.mem_cons.1 hc with rfl | hrest
        · have hletter : c = 'e' ∨ c = 'E' := by
            apply Decidable.or_iff_not_imp_left.2
            rw [← hp] at hhead
            simpa using hhead
          rcases hletter with rfl | rfl <;> decide
        · exact isNumberChar_of_isExponentPart h.2 hrest

theorem isNumberChar_of_isHexDigit {c : Char} (h : isHexDigit c = true) :
    isNumberChar c = true := by
  simp only [isHexDigit, Bool.or_eq_true, Bool.and_eq_true, decide_eq_true_eq] at h
  rcases h with (h | h) | h
  · exact isNumberChar_of_isDigit h
  · have hle : c ≤ 'z' := Char.le_trans h.2 (by decide)
    have hlower : c.isLower = true :=
      Bool.and_eq_true_iff.2 ⟨decide_eq_true h.1, decide_eq_true hle⟩
    exact isNumberChar_of_isAlpha (Bool.or_eq_true_iff.2 (.inr hlower))
  · have hle : c ≤ 'Z' := Char.le_trans h.2 (by decide)
    have hupper : c.isUpper = true := decide_eq_true ⟨h.1, hle⟩
    exact isNumberChar_of_isAlpha (Bool.or_eq_true_iff.2 (.inl hupper))

theorem isNumberChar_of_isHexadecimal {cs : List Char} (h : isHexadecimal cs = true) {c : Char}
    (hc : c ∈ cs) : isNumberChar c = true := by
  unfold isHexadecimal at h
  split at h
  · next x digits =>
    simp only [Bool.and_eq_true, Bool.or_eq_true, beq_iff_eq, List.all_eq_true] at h
    rw [List.mem_cons, List.mem_cons] at hc
    rcases hc with rfl | rfl | hc
    · decide
    · rcases h.1.1 with rfl | rfl <;> decide
    · exact isNumberChar_of_isHexDigit (h.2 c hc)
  · cases h

theorem isNumberChar_of_isNumeric {text : String} (h : isNumeric text = true) {c : Char}
    (hc : c ∈ text.toList) : isNumberChar c = true := by
  simp only [isNumeric, Bool.or_eq_true] at h
  rw [← scanSign_append text.toList, List.mem_append, Option.mem_toList] at hc
  rcases hc with hc | hc
  · exact isNumberChar_of_mem_scanSign hc
  · rcases h with (h | h) | h
    · exact isNumberChar_of_specialWord h hc
    · exact isNumberChar_of_isPlainFloat h hc
    · exact isNumberChar_of_isHexadecimal h hc

/-! ## Numbers that are written -/

theorem isNumberChar_of_mem_positional {d : Decimal} {c : Char} (hc : c ∈ d.positional) :
    isNumberChar c = true := by
  have hdigits : ∀ x ∈ Nat.toDigits 10 d.digits, isNumberChar x = true := fun x hx =>
    isNumberChar_of_isDigit (Nat.isDigit_of_mem_toDigits (by decide) (by decide) hx)
  have hzeros : ∀ n, ∀ x ∈ List.replicate n '0', isNumberChar x = true := fun n x hx => by
    rw [List.eq_of_mem_replicate hx]
    decide
  -- The point stands behind the digits, between them or in front of them.
  unfold Decimal.positional at hc
  simp only at hc
  split at hc
  · rcases List.mem_append.1 hc with h | h
    · exact hdigits c h
    · exact hzeros _ c h
  · split at hc
    · rcases List.mem_append.1 hc with h | h
      · exact hdigits c (List.mem_of_mem_take h)
      · rcases List.mem_cons.1 h with rfl | h
        · decide
        · exact hdigits c (List.mem_of_mem_drop h)
    · simp only [List.mem_cons, List.mem_append] at hc
      rcases hc with rfl | rfl | h | h
      · decide
      · decide
      · exact hzeros _ c h
      · exact hdigits c h

theorem isNumberChar_of_mem_text {x : Float} {c : Char} (hc : c ∈ (text x).toList) :
    isNumberChar c = true := by
  unfold text at hc
  simp only at hc
  generalize hsign : (if x.toBits.toNat / Nat.pow 2 63 = 1 then "-" else "") = sign at hc
  have hsigned : ∀ d ∈ sign.toList, isNumberChar d = true := by
    rw [← hsign]
    split <;> simp [isNumberChar]
  split at hc
  · split at hc
    · rw [String.toList_append, List.mem_append] at hc
      rcases hc with h | h
      · exact hsigned c h
      · exact (by simp [isNumberChar] : ∀ d ∈ "inf".toList, isNumberChar d = true) c h
    · exact (by simp [isNumberChar] : ∀ d ∈ "NaN".toList, isNumberChar d = true) c hc
  · split at hc
    · rw [String.toList_append, List.mem_append] at hc
      rcases hc with h | h
      · exact hsigned c h
      · exact (by simp [isNumberChar] : ∀ d ∈ "0".toList, isNumberChar d = true) c h
    · rw [String.toList_append, String.toList_ofList, List.mem_append] at hc
      rcases hc with h | h
      · exact hsigned c h
      · exact isNumberChar_of_mem_positional h

end FilterEncoding.Number
