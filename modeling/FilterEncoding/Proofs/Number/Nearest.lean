import FilterEncoding.Proofs.Number.Doubles
import FilterEncoding.Number.Numeral

/-!
# The numbers that numerals are read as

`Numeral.number` is the number that a numeral denotes by the places of its digits.  A numeral is
read from one integer and a power of ten.  Where both are doubles themselves one product or
quotient of doubles is taken, and otherwise one of integers; in either way the result is rounded
once, so that a numeral is read as the double nearest to its number (`isNearest_value`).
-/

namespace FilterEncoding.Number

open Float.Model (UnpackedFloat)
open Float.Model.Format (binary64)
open Float.Model.UnpackedFloat

/-! ## Very small and very large numbers -/

theorem roundsTo_zero {q : ℚ} (hnonneg : 0 ≤ q) (hlt : q < 2 ^ (-1075 : ℤ)) :
    RoundsTo q (.zero .positive) := by
  have hunit := two_zpow_pos 1074
  have hvalue : q = q * 2 ^ (1074 : ℤ) * 2 ^ (-1074 : ℤ) := by
    rw [mul_assoc, ← zpow_add₀ two_ne_zero]
    simp
  have hhalf : q * 2 ^ (1074 : ℤ) < 1 / 2 := by
    have hprod : q * 2 ^ (1074 : ℤ) < 2 ^ (-1075 : ℤ) * 2 ^ (1074 : ℤ) :=
      mul_lt_mul_of_pos_right hlt hunit
    rw [← zpow_add₀ two_ne_zero] at hprod
    norm_num at hprod ⊢
    exact hprod
  have hscaled : 0 ≤ q * 2 ^ (1074 : ℤ) := mul_nonneg hnonneg hunit.le
  refine ⟨-1074, _, 0, hvalue, ⟨le_rfl, hscaled, ?_, fun hne => absurd rfl hne⟩, ?_, rfl⟩
  · exact hhalf.trans (by norm_num)
  · have habs : |((0 : ℕ) : ℚ) - q * 2 ^ (1074 : ℤ)| = q * 2 ^ (1074 : ℤ) := by
      rw [Nat.cast_zero, zero_sub, abs_neg, abs_of_nonneg hscaled]
    exact ⟨habs.trans_le hhalf.le, fun _ => Even.zero⟩

theorem isNearest_infinity {q : ℚ} (h : overflowBound ≤ q) :
    IsNearest false q (.ofModel (.pack (.infinity .positive))) := by
  refine ⟨rfl, fun _ => rfl, fun hlt => ?_⟩
  exact absurd ((le_abs_self q).trans_lt hlt) h.not_gt

theorem overflowBound_le {k : ℕ} (h : 1024 ≤ k) : overflowBound ≤ 2 ^ k := by
  have hunit := two_zpow_pos 971
  have hpow : (2 : ℚ) ^ 53 * 2 ^ (971 : ℤ) ≤ 2 ^ k := by
    rw [← zpow_natCast, ← zpow_natCast, ← zpow_add₀ two_ne_zero]
    exact zpow_le_zpow_right₀ one_le_two (by push_cast; omega)
  rw [overflowBound]
  generalize (2 : ℚ) ^ (971 : ℤ) = u at hunit hpow ⊢
  linarith

/-! ## Decimal numbers -/

theorem overflowBound_le_mul {m k : ℕ} (hm : 0 < m) (hk : 1024 ≤ k) :
    overflowBound ≤ m * 10 ^ (k : ℤ) := by
  have hone : (1 : ℚ) ≤ m := by exact_mod_cast hm
  have hpow : (2 : ℚ) ^ k ≤ 10 ^ k := pow_le_pow_left₀ (by norm_num) (by norm_num) k
  rw [zpow_natCast]
  calc overflowBound ≤ 2 ^ k := overflowBound_le hk
    _ ≤ 10 ^ k := hpow
    _ ≤ m * 10 ^ k := le_mul_of_one_le_left (by positivity) hone

theorem mul_lt_of_small {m k : ℕ} (hk : m.log2 + 1076 ≤ k) :
    (m : ℚ) * 10 ^ (-(k : ℤ)) < 2 ^ (-1075 : ℤ) := by
  have hm : (m : ℚ) < 2 ^ (m.log2 + 1) := by exact_mod_cast Nat.lt_log2_self
  have hpow : (2 : ℚ) ^ k ≤ 10 ^ k := pow_le_pow_left₀ (by norm_num) (by norm_num) k
  have hinverse : (10 : ℚ) ^ (-(k : ℤ)) ≤ 2 ^ (-(k : ℤ)) := by
    rw [zpow_neg, zpow_neg, zpow_natCast, zpow_natCast]
    exact inv_anti₀ (by positivity) hpow
  calc (m : ℚ) * 10 ^ (-(k : ℤ)) < 2 ^ (m.log2 + 1) * 2 ^ (-(k : ℤ)) :=
        mul_lt_mul hm hinverse (by positivity) (by positivity)
    _ = 2 ^ ((m.log2 + 1 : ℕ) - (k : ℤ)) := by
        rw [← zpow_natCast, ← zpow_add₀ two_ne_zero, sub_eq_add_neg]
    _ ≤ 2 ^ (-1075 : ℤ) := zpow_le_zpow_right₀ one_le_two (by push_cast; omega)

/-- The significand is moved up by the bits of a mantissa, so that there are enough of them. -/
theorem roundsTo_scaledUp {m k : ℕ} (hm : 0 < m) (hshift : 0 < m <<< 53) (hten : 0 < 10 ^ k) :
    RoundsTo (m * 10 ^ (k : ℤ))
      (mul binary64 (.finite .positive (m <<< 53) (-53) hshift)
        (.finite .positive (10 ^ k) 0 hten)) := by
  have hshifted : m <<< 53 = m * 2 ^ 53 := Nat.shiftLeft_eq _ _
  have hbits : 2 ^ 52 ≤ m <<< 53 * 10 ^ k := by
    rw [hshifted]
    nlinarith
  have hrounds := roundsTo_mul (-53) 0 hshift hten hbits
  have hunit : (2 : ℚ) ^ 53 * 2 ^ (-53 : ℤ) = 1 := by norm_num
  have hvalue : ((m <<< 53 : ℕ) * 2 ^ (-53 : ℤ) * ((10 ^ k : ℕ) * 2 ^ (0 : ℤ)) : ℚ) =
      m * 10 ^ (k : ℤ) := by
    rw [hshifted, zpow_zero, mul_one, zpow_natCast, Nat.cast_mul, Nat.cast_pow, Nat.cast_pow]
    calc (m * 2 ^ 53 * 2 ^ (-53 : ℤ) * 10 ^ k : ℚ)
        _ = m * (2 ^ 53 * 2 ^ (-53 : ℤ)) * 10 ^ k := by ring
        _ = m * 10 ^ k := by rw [hunit, mul_one]
  rwa [hvalue] at hrounds

theorem roundsTo_scaledDown {m k : ℕ} (hm : 0 < m) (hten : 0 < 10 ^ k) :
    RoundsTo (m * 10 ^ (-(k : ℤ)))
      (div binary64 (.finite .positive m 0 hm) (.finite .positive (10 ^ k) 0 hten)) := by
  have hrounds := roundsTo_div 0 0 hm hten
  have hvalue : (m * 2 ^ (0 : ℤ) / ((10 ^ k : ℕ) * 2 ^ (0 : ℤ)) : ℚ) = m * 10 ^ (-(k : ℤ)) := by
    rw [zpow_zero, mul_one, mul_one, zpow_neg, zpow_natCast, Nat.cast_pow, div_eq_mul_inv]
    rfl
  rwa [hvalue] at hrounds

/-- A significand times a power of ten is rounded to the nearest double. -/
theorem isNearest_modelOfScientific (m : ℕ) (e : ℤ) :
    IsNearest false (m * 10 ^ e) (.ofModel (.ofScientific m e)) := by
  have hexponents : (2 : ℤ) ^ binary64.exponentBits = 2048 := rfl
  unfold Float.Model.ofScientific UnpackedFloat.ofScientific
  split
  · next hm =>
    refine isNearest_of_roundsTo (roundsTo_zero (by positivity) ?_)
    rw [hm, Nat.cast_zero, zero_mul]
    exact two_zpow_pos _
  · next hm =>
    have hpos : 0 < m := Nat.pos_of_ne_zero hm
    split
    · -- The number is too large for any exponent.
      next hlarge =>
      obtain ⟨k, rfl⟩ := Int.eq_ofNat_of_zero_le (by omega : 0 ≤ e)
      exact isNearest_infinity (overflowBound_le_mul hpos (by omega))
    · split
      · -- The number is less than half of the smallest double.
        next hsmall =>
        obtain ⟨k, hk⟩ := Int.eq_ofNat_of_zero_le (by omega : 0 ≤ -e)
        obtain rfl : e = -(k : ℤ) := by omega
        exact isNearest_of_roundsTo (roundsTo_zero (by positivity) (mul_lt_of_small (by omega)))
      · split
        · next hnonneg =>
          obtain ⟨k, rfl⟩ := Int.eq_ofNat_of_zero_le hnonneg
          exact isNearest_of_roundsTo (roundsTo_scaledUp hpos _ _)
        · next hneg =>
          obtain ⟨k, hk⟩ := Int.eq_ofNat_of_zero_le (by omega : 0 ≤ -e)
          obtain rfl : e = -(k : ℤ) := by omega
          refine isNearest_of_roundsTo ?_
          simpa only [neg_neg, Int.toNat_natCast] using
            roundsTo_scaledDown hpos (Nat.pow_pos (by decide) : 0 < 10 ^ k)

/-! ## Numbers that are kept exactly -/

/-- A number that is a double itself is not changed. -/
theorem RoundsTo.exact {q : ℚ} {f : UnpackedFloat} (h : RoundsTo q f) {m : ℕ} {e : ℤ}
    (hm : m < 2 ^ 53) (he : -1074 ≤ e) (hvalue : q = (m : ℚ) * 2 ^ e) (hpos : 0 < q)
    (hlt : q < overflowBound) :
    ∃ (k : ℕ) (hk : 0 < k) (t : ℤ),
      (Float.ofModel (.pack f)).toModel.unpack = .finite .positive k t hk ∧
        (k : ℚ) * 2 ^ t = q := by
  obtain ⟨t, y, r, hq, hy, hr, rfl⟩ := h
  have hunpack := (unpack_ofModel _).trans (unpack_pack (isDouble_rounded hy hr (hq ▸ hlt)))
  have hnear := (hy.nearest hr hm he).1
  rw [← hq, ← hvalue, sub_self, abs_zero] at hnear
  have hexact : (r : ℚ) * 2 ^ t = q := sub_eq_zero.1 (abs_nonpos_iff.1 hnear)
  have hzero : r ≠ 0 := by
    rintro rfl
    rw [Nat.cast_zero, zero_mul] at hexact
    exact hpos.ne hexact
  obtain ⟨k, hk, u, hrounded, hsame, -⟩ := exists_rounded hzero t
  exact ⟨k, hk, u, hunpack.trans hrounded, hsame.trans hexact⟩

theorem lt_overflowBound {n : ℕ} (h : n < 2 ^ 53) : (n : ℚ) < overflowBound := by
  have hcast : (n : ℚ) < 2 ^ 53 := by exact_mod_cast h
  have hpow : (2 : ℚ) ^ (1 : ℤ) ≤ 2 ^ (971 : ℤ) := zpow_le_zpow_right₀ one_le_two (by decide)
  rw [overflowBound]
  rw [zpow_one] at hpow
  generalize (2 : ℚ) ^ (971 : ℤ) = u at hpow ⊢
  linarith

theorem unpack_toFloat {n : ℕ} (hpos : 0 < n) (hlt : n < 2 ^ 53) :
    ∃ (k : ℕ) (hk : 0 < k) (t : ℤ),
      n.toUInt64.toFloat.toModel.unpack = .finite .positive k t hk ∧ (k : ℚ) * 2 ^ t = n := by
  have hnat : n.toUInt64.toNat = n := by
    have hsize : n.toUInt64.toNat = n % 2 ^ 64 := rfl
    omega
  have hrounds := roundsTo_ofNat hpos hlt
  rw [← hnat] at hrounds
  obtain ⟨k, hk, t, hunpack, hvalue⟩ := hrounds.exact (m := n) (e := 0) hlt (by decide)
    (by rw [hnat, zpow_zero, mul_one])
    (by rw [hnat]; exact_mod_cast hpos) (by rw [hnat]; exact lt_overflowBound hlt)
  exact ⟨k, hk, t, hunpack, hvalue.trans (by rw [hnat])⟩

/-- Whether a double is a power of ten, with a significand of full length. -/
def isPowerOfTen (i : ℕ) : UnpackedFloat → Bool
  | .finite .positive m e _ => 2 ^ 52 ≤ m && m * 2 ^ e.toNat == 10 ^ i * 2 ^ (-e).toNat
  | _ => false

theorem isPowerOfTen_table : ∀ i (_ : i < Float.exactlyRepresentablePowersOfTen.size),
    isPowerOfTen i Float.exactlyRepresentablePowersOfTen[i].toModel.unpack = true := by
  decide +kernel

theorem exists_of_isPowerOfTen {i : ℕ} {f : UnpackedFloat} (h : isPowerOfTen i f = true) :
    ∃ (k : ℕ) (hk : 0 < k) (t : ℤ), f = .finite .positive k t hk ∧ 2 ^ 52 ≤ k ∧
      (k : ℚ) * 2 ^ t = 10 ^ i := by
  unfold isPowerOfTen at h
  split at h
  · next m e hm =>
    rw [Bool.and_eq_true, decide_eq_true_eq, beq_iff_eq] at h
    refine ⟨m, hm, e, rfl, h.1, ?_⟩
    have hcast : (m : ℚ) * 2 ^ e.toNat = 10 ^ i * 2 ^ (-e).toNat := by exact_mod_cast h.2
    have hpow : (2 : ℚ) ^ e * 2 ^ (-e).toNat = 2 ^ e.toNat := by
      rw [← zpow_natCast, ← zpow_natCast, ← zpow_add₀ two_ne_zero]
      congr 1
      omega
    have hunit : (2 : ℚ) ^ (-e).toNat ≠ 0 := by positivity
    refine mul_right_cancel₀ hunit ?_
    rw [mul_assoc, hpow, hcast]
  · cases h

/-- A short integer and a short power of ten are doubles, so only their product or quotient is
rounded. -/
theorem isNearest_of_short {n i : ℕ} (hn : n < 2 ^ 53)
    (hi : i < Float.exactlyRepresentablePowersOfTen.size) :
    IsNearest false (n * 10 ^ i) (n.toUInt64.toFloat * Float.exactlyRepresentablePowersOfTen[i]) ∧
      IsNearest false (n / 10 ^ i)
        (n.toUInt64.toFloat / Float.exactlyRepresentablePowersOfTen[i]) := by
  obtain ⟨k, hk, t, hpower, hfull, hten⟩ := exists_of_isPowerOfTen (isPowerOfTen_table i hi)
  generalize Float.exactlyRepresentablePowersOfTen[i] = power at hpower ⊢
  have hmul : ∀ x : Float, x * power =
      .ofModel (.pack (mul binary64 x.toModel.unpack power.toModel.unpack)) := fun _ => rfl
  have hdiv : ∀ x : Float, x / power =
      .ofModel (.pack (div binary64 x.toModel.unpack power.toModel.unpack)) := fun _ => rfl
  rw [hmul, hdiv, hpower]
  rcases Nat.eq_zero_or_pos n with rfl | hpos
  · have hunpack : (0 : ℕ).toUInt64.toFloat.toModel.unpack = .zero .positive := rfl
    have hzero : IsNearest false 0 (.ofModel (.pack (.zero .positive))) :=
      isNearest_of_roundsTo (roundsTo_zero le_rfl (two_zpow_pos _))
    rw [hunpack, Nat.cast_zero, zero_mul, zero_div]
    exact ⟨hzero, hzero⟩
  · obtain ⟨j, hj, u, hunpack, hvalue⟩ := unpack_toFloat hpos hn
    rw [hunpack, ← hvalue, ← hten]
    have hbits : 2 ^ 52 ≤ j * k := hfull.trans (Nat.le_mul_of_pos_left k hj)
    exact ⟨isNearest_of_roundsTo (roundsTo_mul u t hj hk hbits),
      isNearest_of_roundsTo (roundsTo_div u t hj hk)⟩

theorem isNearest_ofScientific (m : ℕ) (negative : Bool) (e : ℕ) :
    IsNearest false (m * 10 ^ (if negative then -(e : ℤ) else e))
      (Float.ofScientific m negative e) := by
  unfold Float.ofScientific
  by_cases hfast : m < 2 ^ 53 ∧ e ≤ 22
  · rw [dif_pos hfast]
    obtain ⟨hmul, hdiv⟩ := isNearest_of_short hfast.1 (Nat.lt_succ_of_le hfast.2)
    cases negative with
    | false =>
        rw [← zpow_natCast] at hmul
        exact hmul
    | true =>
        rw [div_eq_mul_inv, ← zpow_natCast, ← zpow_neg] at hdiv
        exact hdiv
  · rw [dif_neg hfast]
    cases negative with
    | false => exact isNearest_modelOfScientific m e
    | true =>
        have hexponent : Int.negOfNat e = -(e : ℤ) := Int.negOfNat_eq
        dsimp only
        rw [if_pos rfl, if_pos rfl, hexponent]
        exact isNearest_modelOfScientific m (-e)

/-! ## The number that a numeral denotes -/

/-- What a sign in front makes of a number. -/
def signed {α : Type} [Neg α] (sign : Option Char) (x : α) : α :=
  if sign = some '-' then -x else x

/-- The power of ten that an exponent stands for. -/
def Exponent.number (e : Exponent) : ℤ :=
  signed e.sign (digitsValue e.digits : ℤ)

/-- The number that a numeral denotes: the integer in front of the point and the fraction behind
it, times a power of ten. -/
def Numeral.number (n : Numeral) : ℚ :=
  signed n.sign ((digitsValue n.whole +
    digitsValue (n.fraction.getD []) / 10 ^ (n.fraction.getD []).length) *
      10 ^ (n.exponent.elim 0 Exponent.number))

theorem digitsValue_append (a b : List Char) :
    digitsValue (a ++ b) = digitsValue a * 10 ^ b.length + digitsValue b := by
  induction b using List.reverseRecOn with
  | nil => simp [digitsValue]
  | append_singleton b d ih =>
      rw [← List.append_assoc, digitsValue_append_one, digitsValue_append_one, ih,
        List.length_append, List.length_singleton, pow_succ]
      ring

theorem Numeral.scale_eq (n : Numeral) :
    n.scale = n.exponent.elim 0 Exponent.number - ((n.fraction.getD []).length : ℤ) := by
  unfold scale
  cases n.exponent with
  | none => rfl
  | some e => rfl

/-- The number is the integer of all digits, scaled down by those behind the point. -/
theorem Numeral.number_eq (n : Numeral) :
    n.number = signed n.sign ((n.significand : ℚ) * 10 ^ n.scale) := by
  have hten : (10 : ℚ) ^ (n.fraction.getD []).length ≠ 0 := by positivity
  rw [number, scale_eq, significand, digitsValue_append, zpow_sub₀ (by norm_num), zpow_natCast]
  congr 1
  push_cast
  field_simp

/-- A numeral is read as the double nearest to the number that it denotes. -/
theorem isNearest_value (n : Numeral) :
    IsNearest (decide (n.sign = some '-')) n.number n.value := by
  have hmagnitude := isNearest_ofScientific n.significand (decide (n.scale < 0)) n.scale.natAbs
  have hexponent : (if decide (n.scale < 0) then -(n.scale.natAbs : ℤ) else n.scale.natAbs) =
      n.scale := by
    rcases Int.lt_or_le n.scale 0 with hneg | hnonneg
    · rw [decide_eq_true hneg, if_pos rfl]
      omega
    · rw [decide_eq_false (not_lt.2 hnonneg), if_neg Bool.false_ne_true]
      omega
  rw [hexponent] at hmagnitude
  rw [n.number_eq, signed, Numeral.value]
  by_cases hsign : n.sign = some '-'
  · rw [if_pos hsign, if_pos hsign, decide_eq_true hsign]
    exact hmagnitude.neg
  · rw [if_neg hsign, if_neg hsign, decide_eq_false hsign]
    exact hmagnitude

end FilterEncoding.Number
