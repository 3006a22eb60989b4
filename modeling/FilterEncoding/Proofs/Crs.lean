import FilterEncoding.Crs
import FilterEncoding.Proofs.Chars.Trim

/-!
# The short notation

A code in the short notation is read as this code in the short notation (`Crs.ofText_epsg`), so
positions that are given with it have the longitude or easting first.
-/

namespace FilterEncoding

/-- A text without blanks is left as it is when it is trimmed. -/
theorem Text.trim_eq_self {s : String} (h : ∀ c ∈ s.toList, Chars.isBlank c = false) :
    Text.trim s = s := by
  have hstart : Chars.trimStart s.toList = s.toList :=
    Chars.trimStart_eq_self_iff.2 fun c hc => h c (List.mem_of_mem_head? hc)
  obtain ⟨blanks, hcut, hblanks⟩ := Chars.exists_trimEnd_append s.toList
  cases blanks with
  | nil => rw [Text.trim, Chars.trim, hstart, ← List.append_nil (Chars.trimEnd _), ← hcut,
      String.ofList_toList]
  | cons c blanks =>
      have hmem : c ∈ s.toList := by
        rw [hcut]
        exact List.mem_append_right _ List.mem_cons_self
      cases (h c hmem).symm.trans (hblanks c List.mem_cons_self)

namespace Number

section Digits

variable {n : Nat} {c : Char}

theorem bounds_of_mem_toDigits (h : c ∈ Nat.toDigits 10 n) : 48 ≤ c.toNat ∧ c.toNat ≤ 57 :=
  Char.isDigit_iff_toNat.1 (Nat.isDigit_of_mem_toDigits (by decide) (by decide) h)

theorem isBlank_of_mem_toDigits (h : c ∈ Nat.toDigits 10 n) : Chars.isBlank c = false := by
  have hbounds := bounds_of_mem_toDigits h
  exact Chars.isBlank_eq_false_of_bounds (by omega)

theorem lower_toDigits (n : Nat) : Chars.lower (Nat.toDigits 10 n) = Nat.toDigits 10 n := by
  refine (List.map_congr_left fun c hc => ?_).trans (List.map_id _)
  have hbounds := bounds_of_mem_toDigits hc
  rcases Chars.toLower_cases c with hlower | hlower
  · exact hlower
  · omega

end Digits

/-- A number is read back from its digits. -/
theorem unsigned?_repr {bound n : Nat} (h : n ≤ bound) :
    unsigned? bound (Nat.repr n) = some n := by
  have hdigit : ∀ c ∈ Nat.toDigits 10 n, c.isDigit = true := fun c hc =>
    Nat.isDigit_of_mem_toDigits (by decide) (by decide) hc
  have hplus : dropPlus (Nat.toDigits 10 n) = Nat.toDigits 10 n := by
    unfold dropPlus
    split
    · next heq => cases hdigit '+' (heq ▸ List.mem_cons_self)
    · rfl
  have hvalue : digitsValue (Nat.toDigits 10 n) = n := by
    rw [digitsValue, ← Nat.ofDigitChars_eq_foldl, Nat.ofDigitChars_ten_toDigits]
  have hne : (Nat.toDigits 10 n).isEmpty = false :=
    List.isEmpty_eq_false_iff.2 Nat.toDigits_ne_nil
  unfold unsigned?
  dsimp only
  rw [Nat.repr_eq_ofList_toDigits, String.toList_ofList, hplus, hvalue, hne,
    if_pos (by simpa [h] using hdigit)]

end Number

namespace Crs

theorem split?_short (digits : List Char) :
    split? ("epsg:".toList ++ digits) = some (.short, digits) := by
  rw [split?, openings, List.find?_cons_of_pos]
  · exact congrArg (fun rest => some (CrsForm.short, rest)) List.drop_left
  · exact List.isPrefixOf_iff_prefix.2 (List.prefix_append "epsg:".toList digits)

/-- A code is read back from its short notation. -/
theorem ofText_epsg {crs : Crs} (h : crs.code ≤ UInt32.size - 1) :
    ofText crs.epsg = .ok ⟨crs.code, .short⟩ := by
  have hchars : crs.epsg.toList = "EPSG:".toList ++ Nat.toDigits 10 crs.code := by
    rw [epsg, String.toList_append, Nat.repr_eq_ofList_toDigits]
    exact congrArg ("EPSG:".toList ++ ·) String.toList_ofList
  have htrim : Text.trim crs.epsg = crs.epsg := Text.trim_eq_self fun c hc => by
    rw [hchars, List.mem_append] at hc
    rcases hc with hc | hc
    · have hopening : "EPSG:".toList.all (fun c => !Chars.isBlank c) = true := by decide
      exact Bool.not_eq_true' _ ▸ List.all_eq_true.1 hopening c hc
    · exact Number.isBlank_of_mem_toDigits hc
  have hsplit : split? (Chars.lower crs.epsg.toList) =
      some (.short, Nat.toDigits 10 crs.code) := by
    rw [hchars, Chars.lower, List.map_append, ← Chars.lower, ← Chars.lower, Number.lower_toDigits]
    exact split?_short _
  unfold ofText
  dsimp only
  rw [htrim, hsplit, Option.bind_eq_bind, Option.bind_some]
  dsimp only
  rw [← Nat.repr_eq_ofList_toDigits, Number.unsigned?_repr h]
  rfl

theorem code_le_of_ofText {text : String} {crs : Crs} (h : ofText text = .ok crs) :
    crs.code ≤ UInt32.size - 1 := by
  unfold ofText at h
  dsimp only at h
  split at h
  · next found hfound =>
    cases h
    obtain ⟨⟨form, digits⟩, -, hfound⟩ := Option.bind_eq_some_iff.1 hfound
    obtain ⟨code, hcode, hfound⟩ := Option.bind_eq_some_iff.1 hfound
    cases hfound
    exact Number.unsigned?_le hcode
  · cases h

/-- In the short notation no code gives the latitude first. -/
theorem latitudeFirst_epsg {crs : Crs} (h : crs.code ≤ UInt32.size - 1) :
    latitudeFirst (some crs.epsg) = false := by
  rw [latitudeFirst, ofText_epsg h]
  rfl

end Crs

end FilterEncoding
