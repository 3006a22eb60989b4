import FilterEncoding.Proofs.Number.Literals
import FilterEncoding.Proofs.Number.Nearest

/-!
# The longest decimal number of a text

The scanner commits itself to a sign, digits, a point and an exponent from left to right and never
goes back.  Still it stops neither too early nor too late: any decimal number at the start of a text
is a part of what is scanned (`Numeral.IsWellFormed.exists_scan_of_prefix`).

* `isLongestNumber_of_scan`, `IsLongestNumber.exists_scan` — the numeral that is scanned is the
  longest decimal number at the start.
* `isDecimalNumber_iff` — a text is a decimal number if the longest one is all of it.
* `IsLongestNumber.isValueOf` — the number that a text starts with is the double nearest to it.
-/

namespace FilterEncoding.Number

/-! ## What a scan leaves -/

theorem scanFraction_suffix (whole cs : List Char) : (scanFraction whole cs).2 <:+ cs :=
  ⟨_, scanFraction_append whole cs⟩

theorem scanExponent_suffix (cs : List Char) : (scanExponent cs).2 <:+ cs :=
  ⟨_, scanExponent_append cs⟩

/-- Behind the digits of a numeral that has an exponent the exponent begins. -/
theorem dropWhile_exponentText {e : Exponent} (h : e.IsWellFormed) (rest : List Char) :
    (exponentText (some e) ++ rest).dropWhile Char.isDigit = exponentText (some e) ++ rest := by
  have hletter : e.letter.isDigit = false := by
    rcases h.letter with hletter | hletter
    · rw [hletter]
      rfl
    · rw [hletter]
      rfl
  rw [exponentText, List.cons_append, List.dropWhile_cons_of_neg (by simp [hletter])]

theorem scanFraction_exponentText {e : Exponent} (h : e.IsWellFormed) (whole rest : List Char) :
    scanFraction whole (exponentText (some e) ++ rest) = (none, exponentText (some e) ++ rest) := by
  have hletter : e.letter ≠ '.' := by
    rcases h.letter with hletter | hletter
    · rw [hletter]
      decide
    · rw [hletter]
      decide
  simp [exponentText, scanFraction, hletter]

/-- An exponent is scanned at least to its end. -/
theorem scanExponent_exponentText_suffix {e : Exponent} (h : e.IsWellFormed) (rest : List Char) :
    (scanExponent (exponentText (some e) ++ rest)).2 <:+ rest := by
  have hhead : ∀ c ∈ (e.digits ++ rest).head?, ¬IsSign c := by
    obtain ⟨d, ds, hdigits⟩ := List.exists_cons_of_ne_nil h.nonempty
    rw [hdigits]
    rintro c ⟨⟩
    exact not_isSign_of_isDigit (h.digits d (hdigits ▸ List.mem_cons_self))
  have hscanned : e.digits ++ rest.takeWhile Char.isDigit ≠ [] :=
    List.append_ne_nil_of_left_ne_nil h.nonempty _
  simp only [exponentText, List.cons_append, List.append_assoc, scanExponent,
    scanSign_append_of_head h.sign hhead, List.takeWhile_append_of_pos h.digits,
    List.dropWhile_append_of_pos h.digits]
  rw [if_pos ⟨h.letter, hscanned⟩]
  exact List.dropWhile_suffix _

/-- Behind further digits an exponent is scanned to its end, whether a fraction is looked for in
front of it or not. -/
theorem scan_exponent_suffix {exponent : Option Exponent} (h : ∀ e ∈ exponent, e.IsWellFormed)
    (whole rest : List Char) :
    (scanExponent ((exponentText exponent ++ rest).dropWhile Char.isDigit)).2 <:+ rest ∧
      (scanExponent (scanFraction whole
        ((exponentText exponent ++ rest).dropWhile Char.isDigit)).2).2 <:+ rest := by
  cases exponent with
  | none =>
      have hrest : rest.dropWhile Char.isDigit <:+ rest := List.dropWhile_suffix _
      exact ⟨(scanExponent_suffix _).trans hrest,
        (scanExponent_suffix _).trans ((scanFraction_suffix _ _).trans hrest)⟩
  | some e =>
      have he := h e rfl
      rw [dropWhile_exponentText he, scanFraction_exponentText he]
      exact ⟨scanExponent_exponentText_suffix he rest, scanExponent_exponentText_suffix he rest⟩

/-- A fraction is scanned at least to its end, together with the digits that follow. -/
theorem scanFraction_fractionText_append {whole digits : List Char} (h : IsDigits digits)
    (hnonempty : whole = [] → digits ≠ []) (rest : List Char) :
    scanFraction whole (fractionText (some digits) ++ rest) =
      (some (digits ++ rest.takeWhile Char.isDigit), rest.dropWhile Char.isDigit) := by
  have hscanned : ¬(whole = [] ∧ digits ++ rest.takeWhile Char.isDigit = []) := by
    rintro ⟨hwhole, hdigits⟩
    exact hnonempty hwhole (List.append_eq_nil_iff.1 hdigits).1
  rw [fractionText, List.cons_append, scanFraction, List.takeWhile_append_of_pos h,
    List.dropWhile_append_of_pos h]
  simpa using hscanned

namespace Numeral

variable {n m : Numeral}

theorem IsWellFormed.unsignedText_ne_nil (h : n.IsWellFormed) : n.unsignedText ≠ [] := by
  unfold unsignedText
  cases hwhole : n.whole with
  | cons d digits => exact List.cons_ne_nil _ _
  | nil =>
      obtain ⟨digits, hfraction, -⟩ := h.nonempty hwhole
      rw [Option.mem_def.1 hfraction]
      exact List.cons_ne_nil _ _

theorem IsWellFormed.scanSign_append (h : n.IsWellFormed) (rest : List Char) :
    scanSign (n.text ++ rest) = (n.sign, n.unsignedText ++ rest) := by
  rw [text_eq, List.append_assoc]
  refine scanSign_append_of_head h.sign ?_
  rw [List.head?_append_of_ne_nil _ h.unsignedText_ne_nil]
  exact h.head?_unsignedText

/-- A scan goes from part to part; with digits in front of the point or a fraction it finds a
numeral. -/
theorem exists_scan_of_parts {cs unsigned whole after scaled : List Char} {sign : Option Char}
    {fraction : Option (List Char)} (hsign : scanSign cs = (sign, unsigned))
    (hwhole : unsigned.takeWhile Char.isDigit = whole)
    (hafter : unsigned.dropWhile Char.isDigit = after)
    (hfraction : scanFraction whole after = (fraction, scaled))
    (hnonempty : whole = [] → fraction ≠ none) :
    ∃ m, scan cs = some (m, (scanExponent scaled).2) := by
  have hscans : ¬(whole.isEmpty && fraction.isNone) = true := by
    rw [Bool.and_eq_true, List.isEmpty_iff, Option.isNone_iff_eq_none, not_and]
    exact hnonempty
  simp only [scan, hsign, hwhole, hafter, hfraction]
  rw [if_neg hscans]
  exact ⟨_, rfl⟩

/-- At a numeral something is scanned, and at least to the end of the numeral. -/
theorem IsWellFormed.exists_scan (h : n.IsWellFormed) (rest : List Char) :
    ∃ m left, scan (n.text ++ rest) = some (m, left) ∧ left <:+ rest := by
  have hsign := h.scanSign_append rest
  rw [unsignedText, List.append_assoc, List.append_assoc] at hsign
  have hwhole (tail : List Char) : (n.whole ++ tail).takeWhile Char.isDigit =
      n.whole ++ tail.takeWhile Char.isDigit := List.takeWhile_append_of_pos h.whole
  have hafter (tail : List Char) : (n.whole ++ tail).dropWhile Char.isDigit =
      tail.dropWhile Char.isDigit := List.dropWhile_append_of_pos h.whole
  cases hfraction : n.fraction with
  | none =>
      -- Further digits may follow, and a point if there is no exponent.
      have hnonempty : n.whole ≠ [] := by
        intro hempty
        obtain ⟨digits, hsome, -⟩ := h.nonempty hempty
        rw [hfraction] at hsome
        cases hsome
      rw [hfraction] at hsign
      obtain ⟨m, hscan⟩ := exists_scan_of_parts hsign (hwhole _) (hafter _) rfl
        fun hempty => absurd (List.append_eq_nil_iff.1 hempty).1 hnonempty
      exact ⟨m, _, hscan, (scan_exponent_suffix h.exponent _ rest).2⟩
  | some digits =>
      have hdigits : IsDigits digits := h.fraction digits hfraction
      have hnonempty : n.whole = [] → digits ≠ [] := by
        intro hempty
        obtain ⟨ds, hsome, hne⟩ := h.nonempty hempty
        rw [hfraction] at hsome
        cases hsome
        exact hne
      rw [hfraction] at hsign
      have hpoint : n.whole ++ (fractionText (some digits) ++
          (exponentText n.exponent ++ rest)).takeWhile Char.isDigit = n.whole :=
        List.append_nil n.whole
      obtain ⟨m, hscan⟩ := exists_scan_of_parts hsign ((hwhole _).trans hpoint) (hafter _)
        (scanFraction_fractionText_append hdigits hnonempty _) fun _ => Option.some_ne_none _
      exact ⟨m, _, hscan, (scan_exponent_suffix h.exponent n.whole rest).1⟩

/-- The numeral that is scanned is the longest: any other at the start of the text is a part of
it. -/
theorem IsWellFormed.exists_scan_of_prefix (h : n.IsWellFormed) {cs : List Char}
    (hstart : n.text <+: cs) :
    ∃ m rest, scan cs = some (m, rest) ∧ n.text <+: m.text := by
  obtain ⟨rest, rfl⟩ := hstart
  obtain ⟨m, left, hscan, more, rfl⟩ := h.exists_scan rest
  refine ⟨m, left, hscan, more, ?_⟩
  have htext := text_append_of_scan hscan
  rw [← List.append_assoc] at htext
  exact (List.append_cancel_right htext).symm

/-- Different numerals have different texts. -/
theorem IsWellFormed.eq_of_text_eq (hn : n.IsWellFormed) (hm : m.IsWellFormed)
    (htext : n.text = m.text) : n = m := by
  have hscan := hn.scan_text
  rw [htext, hm.scan_text] at hscan
  cases hscan
  rfl

end Numeral

/-! ## Decimal numbers as texts -/

/-- A decimal number: an optional sign, digits with an optional point and an optional exponent. -/
def IsDecimalNumber (text : String) : Prop :=
  ∃ n : Numeral, n.IsWellFormed ∧ n.text = text.toList

/-- The longest decimal number at the start of a text, measured in bytes. -/
structure IsLongestNumber (number : String) (cs : List Char) : Prop where
  isPrefix : number.toList <+: cs
  isDecimalNumber : IsDecimalNumber number
  longest : ∀ other : String, other.toList <+: cs → IsDecimalNumber other →
    other.utf8ByteSize ≤ number.utf8ByteSize

/-- How many bytes of a text are scanned as a numeral; none if it does not start with one. -/
def decimalLength (text : String) : Nat :=
  match Numeral.scan text.toList with
  | some (n, _) => (String.ofList n.text).utf8ByteSize
  | none => 0

/-- A double is the value of a decimal number if it is the nearest one to the number written there.
The text determines the numeral (`Numeral.IsWellFormed.eq_of_text_eq`). -/
def IsValueOf (number : String) (x : Float) : Prop :=
  ∃ n : Numeral, n.IsWellFormed ∧ n.text = number.toList ∧
    IsNearest (decide (n.sign = some '-')) n.number x

theorem eq_append_of_prefix {a b : String} (h : a.toList <+: b.toList) :
    ∃ rest, b = a ++ rest := by
  obtain ⟨rest, hrest⟩ := h
  refine ⟨String.ofList rest, ?_⟩
  rw [← String.toList_inj, String.toList_append, String.toList_ofList, hrest]

theorem utf8ByteSize_le_of_prefix {a b : String} (h : a.toList <+: b.toList) :
    a.utf8ByteSize ≤ b.utf8ByteSize := by
  obtain ⟨rest, rfl⟩ := eq_append_of_prefix h
  rw [String.utf8ByteSize_append]
  exact Nat.le_add_right _ _

theorem eq_of_prefix_of_utf8ByteSize {a b : String} (h : a.toList <+: b.toList)
    (hsize : b.utf8ByteSize ≤ a.utf8ByteSize) : a = b := by
  obtain ⟨rest, rfl⟩ := eq_append_of_prefix h
  rw [String.utf8ByteSize_append] at hsize
  have hempty : rest = "" := String.utf8ByteSize_eq_zero_iff.1 (by omega)
  rw [hempty, String.append_empty]

theorem IsDecimalNumber.utf8ByteSize_ne_zero {text : String} (h : IsDecimalNumber text) :
    text.utf8ByteSize ≠ 0 := by
  obtain ⟨n, hn, htext⟩ := h
  intro hsize
  rw [String.utf8ByteSize_eq_zero_iff.1 hsize, String.toList_empty, Numeral.text_eq] at htext
  exact hn.unsignedText_ne_nil (List.append_eq_nil_iff.1 htext).2

theorem isLongestNumber_of_scan {cs rest : List Char} {n : Numeral}
    (h : Numeral.scan cs = some (n, rest)) : IsLongestNumber (String.ofList n.text) cs where
  isPrefix := by
    rw [String.toList_ofList]
    exact ⟨rest, Numeral.text_append_of_scan h⟩
  isDecimalNumber := ⟨n, Numeral.isWellFormed_of_scan h, String.toList_ofList.symm⟩
  longest := by
    rintro other hother ⟨m, hm, htext⟩
    obtain ⟨k, left, hscan, hle⟩ := hm.exists_scan_of_prefix (htext ▸ hother)
    rw [h] at hscan
    cases hscan
    refine utf8ByteSize_le_of_prefix ?_
    rwa [String.toList_ofList, ← htext]

/-- The longest decimal number at the start of a text is the one that is scanned. -/
theorem IsLongestNumber.exists_scan {number : String} {cs : List Char}
    (h : IsLongestNumber number cs) :
    ∃ n rest, Numeral.scan cs = some (n, rest) ∧ n.text = number.toList := by
  obtain ⟨n, hn, htext⟩ := h.isDecimalNumber
  obtain ⟨m, rest, hscan, hle⟩ := hn.exists_scan_of_prefix (htext ▸ h.isPrefix)
  have hlongest := isLongestNumber_of_scan hscan
  have hsize := h.longest _ hlongest.isPrefix hlongest.isDecimalNumber
  have hstart : number.toList <+: (String.ofList m.text).toList := by
    rwa [String.toList_ofList, ← htext]
  rw [eq_of_prefix_of_utf8ByteSize hstart hsize, String.toList_ofList]
  exact ⟨m, rest, hscan, rfl⟩

/-- Nothing is scanned exactly if no decimal number stands at the start. -/
theorem scan_eq_none_iff {cs : List Char} :
    Numeral.scan cs = none ↔ ∀ number : String, number.toList <+: cs → ¬IsDecimalNumber number := by
  constructor
  · rintro hnone number hstart ⟨n, hn, htext⟩
    obtain ⟨m, rest, hscan, -⟩ := hn.exists_scan_of_prefix (htext ▸ hstart)
    rw [hnone] at hscan
    cases hscan
  · intro h
    cases hscan : Numeral.scan cs with
    | none => rfl
    | some found =>
        have hlongest := isLongestNumber_of_scan hscan
        exact absurd hlongest.isDecimalNumber (h _ hlongest.isPrefix)

theorem IsLongestNumber.utf8ByteSize_eq {number text : String}
    (h : IsLongestNumber number text.toList) : number.utf8ByteSize = decimalLength text := by
  obtain ⟨n, rest, hscan, htext⟩ := h.exists_scan
  have hsize : decimalLength text = (String.ofList n.text).utf8ByteSize := by
    rw [decimalLength, hscan]
  rw [hsize, htext, String.ofList_toList]

theorem decimalLength_eq_zero_iff {text : String} :
    decimalLength text = 0 ↔
      ∀ number : String, number.toList <+: text.toList → ¬IsDecimalNumber number := by
  rw [← scan_eq_none_iff, decimalLength]
  cases hscan : Numeral.scan text.toList with
  | none => exact ⟨fun _ => rfl, fun _ => rfl⟩
  | some found =>
      have hsize := (isLongestNumber_of_scan hscan).isDecimalNumber.utf8ByteSize_ne_zero
      exact ⟨fun hzero => absurd hzero hsize, fun hnone => nomatch hnone⟩

theorem exists_isLongestNumber {text : String} (h : decimalLength text ≠ 0) :
    ∃ number, IsLongestNumber number text.toList := by
  cases hscan : Numeral.scan text.toList with
  | none =>
      rw [decimalLength, hscan] at h
      exact absurd rfl h
  | some found => exact ⟨_, isLongestNumber_of_scan hscan⟩

/-- A text is a decimal number if the longest one at its start is the whole text. -/
theorem isDecimalNumber_iff {text : String} :
    IsDecimalNumber text ↔ text ≠ "" ∧ decimalLength text = text.utf8ByteSize := by
  constructor
  · intro h
    have hlongest : IsLongestNumber text text.toList :=
      ⟨List.prefix_rfl, h, fun _ hother _ => utf8ByteSize_le_of_prefix hother⟩
    exact ⟨mt String.utf8ByteSize_eq_zero_iff.2 h.utf8ByteSize_ne_zero,
      hlongest.utf8ByteSize_eq.symm⟩
  · rintro ⟨hne, hsize⟩
    have hsome : decimalLength text ≠ 0 := by
      rw [hsize]
      exact mt String.utf8ByteSize_eq_zero_iff.1 hne
    obtain ⟨number, hlongest⟩ := exists_isLongestNumber hsome
    have hall : text.utf8ByteSize ≤ number.utf8ByteSize := by
      rw [hlongest.utf8ByteSize_eq, hsize]
    exact eq_of_prefix_of_utf8ByteSize hlongest.isPrefix hall ▸ hlongest.isDecimalNumber

theorem IsDecimalNumber.isPlainFloat {text : String} (h : IsDecimalNumber text) :
    isPlainFloat (scanSign text.toList).2 = true := by
  rw [← isDecimal_eq]
  exact isDecimal_iff.2 h

theorem IsLongestNumber.isValueOf {number text : String}
    (h : IsLongestNumber number (Chars.trimStart text.toList)) :
    IsValueOf number (leadingValue text) := by
  obtain ⟨n, rest, hscan, htext⟩ := h.exists_scan
  rw [leadingValue, hscan]
  exact ⟨n, Numeral.isWellFormed_of_scan hscan, htext, isNearest_value n⟩

/-- What is scanned at the start of a text is the longest decimal number there, and nothing only if
there is none.  A text is a decimal number if it is scanned to its end, and the number that a text
starts with, behind blanks, has the value of the longest one: it is a floating-point literal, and
what is read is the double nearest to it. -/
theorem decimalLength_longest (text : String) :
    (decimalLength text = 0 ↔
      ∀ number : String, number.toList <+: text.toList → ¬IsDecimalNumber number) ∧
    (decimalLength text ≠ 0 → ∃ number, IsLongestNumber number text.toList ∧
      number.utf8ByteSize = decimalLength text) ∧
    (isDecimal text = true ↔ IsDecimalNumber text) ∧
    (isDecimal text = true ↔ text ≠ "" ∧ decimalLength text = text.utf8ByteSize) ∧
    ∀ number, IsLongestNumber number (Chars.trimStart text.toList) →
      isPlainFloat (scanSign number.toList).2 = true ∧ IsValueOf number (leadingValue text) := by
  refine ⟨decimalLength_eq_zero_iff, fun hsome => ?_, isDecimal_iff,
    isDecimal_iff.trans isDecimalNumber_iff, fun number h => ?_⟩
  · obtain ⟨number, hlongest⟩ := exists_isLongestNumber hsome
    exact ⟨number, hlongest, hlongest.utf8ByteSize_eq⟩
  · exact ⟨h.isDecimalNumber.isPlainFloat, h.isValueOf⟩

/-- A number that is followed by a point and a unit, with blanks in front of it and without. -/
theorem decimalLength_longest_behind_blanks :
    (∃ number, IsLongestNumber number "-7.5e2.5km".toList ∧ number.utf8ByteSize = 6) ∧
      IsValueOf "-7.5e2" (leadingValue "  -7.5e2.5km") := by
  have hscan : Numeral.scan "-7.5e2.5km".toList =
      some (⟨some '-', ['7'], some ['5'], some ⟨'e', none, ['2']⟩⟩, ".5km".toList) := by decide
  have hlength : decimalLength "-7.5e2.5km" = 6 := by
    rw [decimalLength, hscan]
    rfl
  have htrim : Chars.trimStart "  -7.5e2.5km".toList = "-7.5e2.5km".toList := by decide
  have hlongest : IsLongestNumber "-7.5e2" (Chars.trimStart "  -7.5e2.5km".toList) := by
    rw [htrim]
    exact isLongestNumber_of_scan hscan
  constructor
  · have hfound := (decimalLength_longest "-7.5e2.5km").2.1 (by rw [hlength]; decide)
    rwa [hlength] at hfound
  · exact ((decimalLength_longest "  -7.5e2.5km").2.2.2.2 _ hlongest).2

end FilterEncoding.Number
