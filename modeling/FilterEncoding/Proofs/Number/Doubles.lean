import FilterEncoding.Proofs.Number.Rounding

/-!
# Doubles as rational numbers

What `IsDouble` describes is kept in 64 bits without a change (`unpack_pack`), so a finite double
stands for one rational number, `rational?`.  `IsNearest` says that a double is the one a number is
rounded to, with ties, infinities and the sign of zero.

* `isNearest_of_roundsTo` — what is rounded once is rounded to the nearest double.
* `IsNearest.neg` — the opposite number is rounded to the opposite double.
-/

namespace FilterEncoding.Number

open Float.Model (Format UnpackedFloat)
open Float.Model.Format (binary64)
open Float.Model.UnpackedFloat

/-! ## Doubles in 64 bits -/

/-- What can be kept in 64 bits: a significand below `2 ^ 53`, and at the least exponent a smaller
one than elsewhere. -/
def IsDouble : UnpackedFloat → Prop
  | .finite _ m e _ => m < 2 ^ 53 ∧ -1074 ≤ e ∧ e ≤ 971 ∧ (e ≠ -1074 → 2 ^ 52 ≤ m)
  | _ => True

theorem ofBitVec_unpackSign {spec : Format} (s : Sign) (e : BitVec spec.exponentBits)
    (m : BitVec spec.mantissaBitsWithoutImplicit) :
    Sign.ofBitVec (unpackSign (packComponents spec s e m)) = s := by
  have hsign : unpackSign (packComponents spec s e m) = s.toBitVec := by
    ext i hi
    have hzero : i = 0 := by omega
    subst hzero
    simp [unpackSign, packComponents, BitVec.getLsbD_append, BitVec.getElem_append]
  rw [hsign]
  cases s <;> rfl

theorem toNat_one_append (m : BitVec 52) : (1#1 ++ m).toNat = 2 ^ 52 + m.toNat := by
  rw [BitVec.toNat_append, ← Nat.shiftLeft_add_eq_or_of_lt m.isLt]
  rfl

theorem toNat_ofNat {k n : ℕ} (h : n < 2 ^ k) : (BitVec.ofNat k n).toNat = n := by
  rw [BitVec.toNat_ofNat, Nat.mod_eq_of_lt h]

theorem ofNat_ne_zero {k n : ℕ} (hpos : 0 < n) (h : n < 2 ^ k) : BitVec.ofNat k n ≠ 0#k := by
  intro hzero
  have hnat := congrArg BitVec.toNat hzero
  rw [toNat_ofNat h, BitVec.toNat_zero] at hnat
  omega

theorem ofNat_ne_neg_one {n : ℕ} (h : n < 2047) : BitVec.ofNat 11 n ≠ -1#11 := by
  intro hmax
  have hnat := congrArg BitVec.toNat hmax
  rw [toNat_ofNat (by omega)] at hnat
  have hvalue : (-1#11).toNat = 2047 := rfl
  omega

/-- The parts of a double are read as they were put together. -/
theorem unpack_normal (s : Sign) {b m : ℕ} (hb : 0 < b ∧ b < 2047) (hm : 2 ^ 52 ≤ m)
    (hlt : m < 2 ^ 53) :
    unpack binary64 (packComponents binary64 s (BitVec.ofNat 11 b) (BitVec.ofNat 52 m)) =
      .finite s m (b - 1075) (by omega) := by
  have hsignificand : (1#1 ++ BitVec.ofNat 52 m).toNat = m := by
    rw [toNat_one_append, BitVec.toNat_ofNat]
    omega
  simp only [unpack, unpackExponent_packComponents, unpackMantissa_packComponents,
    ofBitVec_unpackSign, if_neg (ofNat_ne_neg_one hb.2),
    if_neg (ofNat_ne_zero hb.1 (by omega : b < 2 ^ 11)), hsignificand,
    toNat_ofNat (by omega : b < 2 ^ 11)]
  rfl

theorem unpack_subnormal (s : Sign) {m : ℕ} (hpos : 0 < m) (hlt : m < 2 ^ 52) :
    unpack binary64 (packComponents binary64 s 0#11 (BitVec.ofNat 52 m)) =
      .finite s m (-1074) hpos := by
  have hexponent : (0#11 : BitVec 11) ≠ -1#11 := by decide
  simp only [unpack, unpackExponent_packComponents, unpackMantissa_packComponents,
    ofBitVec_unpackSign, if_neg hexponent, dif_neg (ofNat_ne_zero hpos hlt),
    toNat_ofNat hlt]
  rfl

theorem pack_finite (s : Sign) {m : ℕ} (hm : 0 < m) (e : ℤ) :
    pack binary64 (.finite s m e hm) =
      if 2047 ≤ (e + 1075).toNat then packedInfinity binary64 s
      else if m.log2 = 52 then
        packComponents binary64 s (BitVec.ofNat 11 (e + 1075).toNat) (BitVec.ofNat 52 m)
      else packComponents binary64 s 0#11 (BitVec.ofNat 52 m) := by
  have hbias : e + (binary64.exponentBias : ℤ) + (52 : ℕ) = e + 1075 := by
    have hvalue : (binary64.exponentBias : ℤ) = 1023 := rfl
    omega
  have hbits : (m.log2 + 1 = binary64.mantissaBits) = (m.log2 = 52) := by
    have hvalue : binary64.mantissaBits = 53 := rfl
    rw [hvalue]
    exact propext ⟨fun h => by omega, fun h => by omega⟩
  simp only [pack, hbias, hbits]
  congr 1
  exact propext ⟨fun h => by omega, fun h => by omega⟩

theorem unpack_pack {f : UnpackedFloat} (h : IsDouble f) :
    unpack binary64 (pack binary64 f) = f := by
  cases f with
  | notANumber => rfl
  | infinity s => cases s <;> rfl
  | zero s => cases s <;> rfl
  | finite s m e hm =>
      obtain ⟨hlt, hleast, hmost, hnormal⟩ := h
      rw [pack_finite, if_neg (by omega)]
      by_cases hlarge : 2 ^ 52 ≤ m
      · rw [if_pos ((Nat.log2_eq_iff hm.ne').2 ⟨hlarge, hlt⟩),
          unpack_normal s (by omega) hlarge hlt]
        congr 1
        omega
      · have hexponent : e = -1074 := by
          by_contra hne
          exact hlarge (hnormal hne)
        rw [if_neg fun hlog => hlarge ((Nat.log2_eq_iff hm.ne').1 hlog).1,
          unpack_subnormal s hm (by omega), hexponent]

/-- From the next exponent on a double is kept as infinite. -/
theorem unpack_pack_of_large (s : Sign) {m : ℕ} (hm : 0 < m) {e : ℤ} (he : 972 ≤ e) :
    unpack binary64 (pack binary64 (.finite s m e hm)) = .infinity s := by
  rw [pack_finite, if_pos (by omega)]
  cases s <;> rfl

theorem isDouble_unpack (b : BitVec 64) : IsDouble (unpack binary64 b) := by
  fun_cases unpack binary64 b with
  | case1 => trivial
  | case2 => trivial
  | case3 => trivial
  | case4 mantissa bits exponent signBit sign hmax hzero hm =>
      have hlt : mantissa.toNat < 2 ^ 52 := mantissa.isLt
      have hbits : bits.toNat = 0 := congrArg BitVec.toNat hzero
      have hexponent : exponent = bits.toNat - 1075 := rfl
      refine ⟨hlt.trans (by decide), ?_, ?_, fun hne => absurd ?_ hne⟩
      all_goals omega
  | case5 mantissa bits exponent signBit sign hmax hzero =>
      have hlt : mantissa.toNat < 2 ^ 52 := mantissa.isLt
      have hbits : bits.toNat < 2 ^ 11 := bits.isLt
      have hpos : bits.toNat ≠ 0 := fun h => hzero (BitVec.eq_of_toNat_eq h)
      have hle : bits.toNat ≠ 2047 := fun h => hmax (BitVec.eq_of_toNat_eq h)
      have hexponent : exponent = bits.toNat - 1075 := rfl
      have hvalue : (1#1 ++ mantissa).toNat = 2 ^ 52 + mantissa.toNat := toNat_one_append mantissa
      refine ⟨?_, ?_, ?_, fun _ => hvalue ▸ Nat.le_add_right _ _⟩
      · rw [hvalue]
        omega
      all_goals omega

/-! ## The nearest double -/

/-- The number that a double stands for, if it is finite. -/
def rational? (x : Float) : Option ℚ :=
  match x.toModel.unpack with
  | .finite s m e _ => some (s.apply m * 2 ^ e)
  | .zero _ => some 0
  | .infinity _ => none
  | .notANumber => none

def mantissa (x : Float) : ℕ :=
  match x.toModel.unpack with
  | .finite _ m _ _ => m
  | _ => 0

def isNegative (x : Float) : Bool :=
  match x.toModel.unpack with
  | .finite s _ _ _ => s == .negative
  | .zero s => s == .negative
  | .infinity s => s == .negative
  | .notANumber => false

/-- The middle between the largest double and the next power of two. -/
def overflowBound : ℚ :=
  (2 ^ 53 - 1 / 2) * 2 ^ (971 : ℤ)

/-- The double that a number with a sign is rounded to: no finite double is nearer, of two equally
near ones it is the one with an even significand, and from the middle behind the largest double on
it is infinite. -/
structure IsNearest (negative : Bool) (q : ℚ) (x : Float) : Prop where
  isNegative_eq : isNegative x = negative
  infinite : overflowBound ≤ |q| → x.isInf = true
  finite : |q| < overflowBound → ∃ v, rational? x = some v ∧ ∀ y w, rational? y = some w →
    |v - q| ≤ |w - q| ∧ (w ≠ v → |w - q| = |v - q| → Even (mantissa x))

/-- A rounded significand is nearest among those of all exponents. -/
theorem FitsUnit.nearest {t : ℤ} {y : ℚ} {r : ℕ} (hy : FitsUnit t y) (hr : IsRounded r y) {m : ℕ}
    {e : ℤ} (hm : m < 2 ^ 53) (he : -1074 ≤ e) :
    |(r : ℚ) * 2 ^ t - y * 2 ^ t| ≤ |(m : ℚ) * 2 ^ e - y * 2 ^ t| ∧
      ((m : ℚ) * 2 ^ e ≠ r * 2 ^ t →
        |(m : ℚ) * 2 ^ e - y * 2 ^ t| = |(r : ℚ) * 2 ^ t - y * 2 ^ t| → Even r) := by
  have ht := two_zpow_pos t
  have hscale : ∀ k : ℕ, |(k : ℚ) * 2 ^ t - y * 2 ^ t| = |(k : ℚ) - y| * 2 ^ t := fun k => by
    rw [← sub_mul, abs_mul, abs_of_pos ht]
  by_cases hle : t ≤ e
  · -- In the unit of the number the other double is an integer.
    obtain ⟨j, hj⟩ : ∃ j : ℕ, e = t + j := ⟨(e - t).toNat, by omega⟩
    have hvalue : (m : ℚ) * 2 ^ e = (m * 2 ^ j : ℕ) * 2 ^ t := by
      rw [hj, zpow_add₀ two_ne_zero, zpow_natCast]
      push_cast
      ring
    obtain ⟨hnear, heven⟩ := hr.nearest (m * 2 ^ j)
    rw [hvalue, hscale, hscale]
    refine ⟨mul_le_mul_of_nonneg_right hnear ht.le, fun hne heq => heven ?_ ?_⟩
    · rintro hsame
      exact hne (by rw [hsame])
    · exact mul_right_cancel₀ ht.ne' heq
  · -- A double of a smaller exponent lies below the power of two that the number reaches.
    have hnormal := hy.normal (by omega)
    have hbelow : (m : ℚ) * 2 ^ e < (2 ^ 52 : ℕ) * 2 ^ t := by
      have hcast : (m : ℚ) < 2 ^ 53 := by exact_mod_cast hm
      have hpow : (2 : ℚ) ^ e ≤ 2 ^ (t - 1) := zpow_le_zpow_right₀ one_le_two (by omega)
      have hhalf : (2 : ℚ) ^ t = 2 ^ (t - 1) * 2 := by
        rw [← zpow_add_one₀ two_ne_zero, sub_add_cancel]
      have hprod : (m : ℚ) * 2 ^ e < 2 ^ 53 * 2 ^ (t - 1) :=
        mul_lt_mul hcast hpow (two_zpow_pos e) (by norm_num)
      rw [hhalf]
      push_cast
      linarith
    have hstrict : |(r : ℚ) * 2 ^ t - y * 2 ^ t| < |(m : ℚ) * 2 ^ e - y * 2 ^ t| := by
      calc |(r : ℚ) * 2 ^ t - y * 2 ^ t| = |(r : ℚ) - y| * 2 ^ t := hscale r
        _ ≤ |((2 ^ 52 : ℕ) : ℚ) - y| * 2 ^ t :=
            mul_le_mul_of_nonneg_right (hr.nearest (2 ^ 52)).1 ht.le
        _ = y * 2 ^ t - (2 ^ 52 : ℕ) * 2 ^ t := by
            rw [abs_sub_comm, abs_of_nonneg (by push_cast; linarith), sub_mul]
        _ < y * 2 ^ t - m * 2 ^ e := by linarith
        _ ≤ |(m : ℚ) * 2 ^ e - y * 2 ^ t| := by
            rw [abs_sub_comm]
            exact le_abs_self _
    exact ⟨hstrict.le, fun _ heq => absurd heq hstrict.ne'⟩

/-! ## Doubles that are rounded to -/

theorem rational?_eq_some {x : Float} {w : ℚ} (h : rational? x = some w) :
    ∃ (m : ℕ) (e : ℤ), m < 2 ^ 53 ∧ -1074 ≤ e ∧
      (w = (m : ℚ) * 2 ^ e ∨ w = -((m : ℚ) * 2 ^ e)) := by
  have hdouble : IsDouble x.toModel.unpack := isDouble_unpack _
  unfold rational? at h
  cases hunpack : x.toModel.unpack with
  | notANumber => simp [hunpack] at h
  | infinity s => simp [hunpack] at h
  | zero s =>
      have hw : (0 : ℚ) = w := by simpa [hunpack] using h
      exact ⟨0, 0, by decide, by decide, .inl (by rw [← hw, Nat.cast_zero, zero_mul])⟩
  | finite s m e hm =>
      rw [hunpack] at h hdouble
      refine ⟨m, e, hdouble.1, hdouble.2.1, ?_⟩
      cases s with
      | positive => exact .inl (Option.some.inj h).symm
      | negative =>
          right
          rw [← Option.some.inj h, Sign.apply, Int.cast_neg, Int.cast_natCast, neg_mul]

/-- The value nearest to a number that is not negative is nearest among the doubles of either
sign. -/
theorem FitsUnit.nearest_double {t : ℤ} {y : ℚ} {r : ℕ} (hy : FitsUnit t y) (hr : IsRounded r y)
    {x : Float} {w : ℚ} (hw : rational? x = some w) :
    |(r : ℚ) * 2 ^ t - y * 2 ^ t| ≤ |w - y * 2 ^ t| ∧
      (w ≠ r * 2 ^ t → |w - y * 2 ^ t| = |(r : ℚ) * 2 ^ t - y * 2 ^ t| → Even r) := by
  obtain ⟨m, e, hm, he, hvalue⟩ := rational?_eq_some hw
  obtain ⟨hnear, heven⟩ := hy.nearest hr hm he
  have hzero := (hy.nearest hr (m := 0) (e := 0) (by decide) (by decide)).1
  have hpos : 0 ≤ (m : ℚ) * 2 ^ e := mul_nonneg m.cast_nonneg (two_zpow_pos e).le
  have hq : 0 ≤ y * 2 ^ t := mul_nonneg hy.nonneg (two_zpow_pos t).le
  have hv : 0 ≤ (r : ℚ) * 2 ^ t := mul_nonneg r.cast_nonneg (two_zpow_pos t).le
  generalize (m : ℚ) * 2 ^ e = d at hnear heven hpos hvalue
  generalize y * 2 ^ t = q at hnear heven hq hzero ⊢
  generalize (r : ℚ) * 2 ^ t = v at hnear heven hv hzero ⊢
  rcases hvalue with rfl | rfl
  · exact ⟨hnear, heven⟩
  · -- The opposite of a double is not nearer than the double.
    have hfar : |-d - q| = d + q := by
      rw [← neg_add', abs_neg, abs_of_nonneg (add_nonneg hpos hq)]
    have hclose : |d - q| ≤ d + q := abs_le.2 ⟨by linarith, by linarith⟩
    refine ⟨hnear.trans (hclose.trans hfar.ge), fun hne heq => ?_⟩
    refine heven ?_ (le_antisymm (hclose.trans (hfar.ge.trans heq.le)) hnear)
    -- If the opposite is as near, the number or the double is zero, and with it the other.
    rintro rfl
    rw [Nat.cast_zero, zero_mul, zero_sub, abs_neg, abs_of_nonneg hq] at hzero
    rw [hfar] at heq
    have hv0 : d = 0 := by
      rcases abs_cases (d - q) with ⟨habs, -⟩ | ⟨habs, -⟩
      · linarith
      · linarith
    exact hne (by rw [hv0, neg_zero])

theorem FitsUnit.exponent_le {t : ℤ} {y : ℚ} (hy : FitsUnit t y) (h : y * 2 ^ t < overflowBound) :
    t ≤ 971 := by
  by_contra hlarge
  have hpow : (2 : ℚ) ^ (971 + 1 : ℤ) ≤ 2 ^ t := zpow_le_zpow_right₀ one_le_two (by omega)
  have hprod : (2 : ℚ) ^ 52 * 2 ^ (971 + 1 : ℤ) ≤ y * 2 ^ t :=
    mul_le_mul (hy.normal (by omega)) hpow (two_zpow_pos _).le hy.nonneg
  have hunit := two_zpow_pos 971
  rw [overflowBound] at h
  rw [zpow_add_one₀ two_ne_zero] at hprod
  generalize (2 : ℚ) ^ (971 : ℤ) = u at hunit hprod h
  linarith

theorem FitsUnit.le_exponent {t : ℤ} {y : ℚ} (hy : FitsUnit t y) (h : overflowBound ≤ y * 2 ^ t) :
    971 ≤ t := by
  by_contra hsmall
  have hpow : (2 : ℚ) ^ t ≤ 2 ^ (970 : ℤ) := zpow_le_zpow_right₀ one_le_two (by omega)
  have hprod : y * 2 ^ t ≤ 2 ^ 53 * 2 ^ (970 : ℤ) :=
    mul_le_mul hy.below.le hpow (two_zpow_pos _).le (by norm_num)
  have hnext : (2 : ℚ) ^ (971 : ℤ) = 2 ^ (970 : ℤ) * 2 := zpow_add_one₀ two_ne_zero 970
  have hunit := two_zpow_pos 970
  rw [overflowBound, hnext] at h
  generalize (2 : ℚ) ^ (970 : ℤ) = u at hunit hprod h
  linarith

/-- The middle in front of a power of two is rounded up to it, since the significand below is
odd. -/
theorem IsRounded.eq_pow_iff {r : ℕ} {y : ℚ} (h : IsRounded r y) (hy : y < 2 ^ 53) :
    r = 2 ^ 53 ↔ 2 ^ 53 - 1 / 2 ≤ y := by
  obtain ⟨hlow, hhigh⟩ := abs_le.1 h.near
  constructor
  · rintro rfl
    push_cast at hhigh
    linarith
  · intro habove
    by_contra hne
    have hr : r ≤ 2 ^ 53 := h.le_pow hy
    have hmost : (r : ℚ) ≤ 2 ^ 53 - 1 := by
      have hcast : (r : ℚ) + 1 ≤ 2 ^ 53 := by exact_mod_cast (by omega : r + 1 ≤ 2 ^ 53)
      linarith
    have hmiddle : |(r : ℚ) - y| = 1 / 2 := by
      rw [abs_of_nonpos (by linarith)]
      linarith
    have hvalue : (r : ℚ) = ((2 ^ 53 - 1 : ℕ) : ℚ) := by
      push_cast
      linarith
    have hodd : r = 2 ^ 53 - 1 := by exact_mod_cast hvalue
    have heven := h.even hmiddle
    rw [hodd] at heven
    exact absurd heven (by decide)

section Rounded

variable {t : ℤ} {y : ℚ} {r : ℕ} (hy : FitsUnit t y) (hr : IsRounded r y)
include hy hr

/-- Below the bound the rounded double can be kept. -/
theorem isDouble_rounded (hlt : y * 2 ^ t < overflowBound) : IsDouble (rounded r t) := by
  have hle : r ≤ 2 ^ 53 := hr.le_pow hy.below
  have hleast := hy.least
  have hmost := hy.exponent_le hlt
  have hcarry : r = 2 ^ 53 → t ≠ 971 := by
    rintro hcarry rfl
    have hbelow : y < 2 ^ 53 - 1 / 2 := lt_of_mul_lt_mul_right hlt (two_zpow_pos 971).le
    exact absurd ((hr.eq_pow_iff hy.below).1 hcarry) hbelow.not_ge
  unfold rounded
  by_cases hzero : r = 0
  · rw [dif_pos hzero]
    trivial
  · rw [dif_neg hzero]
    by_cases hcarried : r = 2 ^ 53
    · rw [if_pos hcarried]
      have hne := hcarry hcarried
      exact ⟨by decide, by omega, by omega, fun _ => le_rfl⟩
    · rw [if_neg hcarried]
      exact ⟨by omega, hleast, hmost, fun hne => hr.pow_le (hy.normal hne)⟩

/-- From the bound on the exponent of the rounded double is too large. -/
theorem exists_rounded_eq (hle : overflowBound ≤ y * 2 ^ t) :
    ∃ (m : ℕ) (hm : 0 < m) (e : ℤ), 972 ≤ e ∧ rounded r t = .finite .positive m e hm := by
  have hlarge := hy.le_exponent hle
  have hnormal : 2 ^ 52 ≤ r := hr.pow_le (hy.normal (by omega))
  have hzero : r ≠ 0 := by omega
  by_cases hcarried : r = 2 ^ 53
  · exact ⟨2 ^ 52, by decide, t + 1, by omega, by rw [rounded, dif_neg hzero, if_pos hcarried]⟩
  · refine ⟨r, Nat.pos_of_ne_zero hzero, t, ?_, by rw [rounded, dif_neg hzero, if_neg hcarried]⟩
    have hne : t ≠ 971 := by
      rintro rfl
      have habove : 2 ^ 53 - 1 / 2 ≤ y := le_of_mul_le_mul_right hle (two_zpow_pos 971)
      exact hcarried ((hr.eq_pow_iff hy.below).2 habove)
    omega

end Rounded

/-- The double that is kept. -/
theorem unpack_ofModel (f : UnpackedFloat) :
    (Float.ofModel (.pack f)).toModel.unpack = unpack binary64 (pack binary64 f) :=
  rfl

/-- A significand that is carried to the next power of two keeps its value. -/
theorem exists_rounded {r : ℕ} (hr : r ≠ 0) (t : ℤ) :
    ∃ (m : ℕ) (hm : 0 < m) (e : ℤ), rounded r t = .finite .positive m e hm ∧
      (m : ℚ) * 2 ^ e = r * 2 ^ t ∧ (Even r → Even m) := by
  rw [rounded, dif_neg hr]
  by_cases hcarried : r = 2 ^ 53
  · rw [if_pos hcarried]
    refine ⟨2 ^ 52, by decide, t + 1, rfl, ?_, fun _ => by decide⟩
    rw [hcarried, zpow_add₀ two_ne_zero]
    push_cast
    ring
  · rw [if_neg hcarried]
    exact ⟨r, Nat.pos_of_ne_zero hr, t, rfl, rfl, id⟩

theorem rational?_of_unpack {x : Float} {r : ℕ} {t : ℤ}
    (h : x.toModel.unpack = rounded r t) :
    rational? x = some ((r : ℚ) * 2 ^ t) ∧ isNegative x = false ∧ (Even r → Even (mantissa x)) := by
  rw [rational?, isNegative, mantissa, h]
  by_cases hzero : r = 0
  · rw [rounded, dif_pos hzero, hzero, Nat.cast_zero, zero_mul]
    exact ⟨rfl, rfl, fun _ => Even.zero⟩
  · obtain ⟨m, hm, e, hrounded, hvalue, heven⟩ := exists_rounded hzero t
    rw [hrounded, ← hvalue]
    exact ⟨rfl, rfl, heven⟩

theorem isNearest_of_roundsTo {q : ℚ} {f : UnpackedFloat} (h : RoundsTo q f) :
    IsNearest false q (.ofModel (.pack f)) := by
  obtain ⟨t, y, r, rfl, hy, hr, rfl⟩ := h
  have hq : |y * 2 ^ t| = y * 2 ^ t :=
    abs_of_nonneg (mul_nonneg hy.nonneg (two_zpow_pos t).le)
  rcases lt_or_ge (y * 2 ^ t) overflowBound with hlt | hge
  · have hunpack := (unpack_ofModel _).trans (unpack_pack (isDouble_rounded hy hr hlt))
    obtain ⟨hvalue, hsign, heven⟩ := rational?_of_unpack hunpack
    refine ⟨hsign, fun hlarge => absurd (hq ▸ hlarge) hlt.not_ge, fun _ => ⟨_, hvalue, ?_⟩⟩
    intro x w hw
    obtain ⟨hnear, htie⟩ := hy.nearest_double hr hw
    exact ⟨hnear, fun hne heq => heven (htie hne heq)⟩
  · obtain ⟨m, hm, e, he, hrounded⟩ := exists_rounded_eq hy hr hge
    have hunpack := (unpack_ofModel (rounded r t)).trans
      (hrounded ▸ unpack_pack_of_large .positive hm he)
    refine ⟨?_, fun _ => ?_, fun hsmall => absurd (hq ▸ hsmall) hge.not_gt⟩
    · rw [isNegative, hunpack]
      rfl
    · rw [Float.isInf, Float.Model.isInf, hunpack]
      rfl

/-! ## The opposite of a double -/

theorem isDouble_neg {f : UnpackedFloat} (h : IsDouble f) : IsDouble (neg f) := by
  cases f with
  | finite s m e hm => exact h
  | _ => trivial

theorem unpack_neg (x : Float) : (-x).toModel.unpack = neg x.toModel.unpack :=
  unpack_pack (isDouble_neg (isDouble_unpack _))

theorem rational?_neg (x : Float) : rational? (-x) = (rational? x).map (- ·) := by
  rw [rational?, rational?, unpack_neg]
  cases x.toModel.unpack with
  | finite s m e hm =>
      have happly : (-s).apply m = -s.apply m := by
        cases s with
        | positive => rfl
        | negative => exact (neg_neg _).symm
      refine congrArg some ?_
      show ((-s).apply m * 2 ^ e : ℚ) = -(s.apply m * 2 ^ e)
      rw [happly, Int.cast_neg, neg_mul]
  | zero s => exact congrArg some neg_zero.symm
  | _ => rfl

theorem mantissa_neg (x : Float) : mantissa (-x) = mantissa x := by
  rw [mantissa, mantissa, unpack_neg]
  cases x.toModel.unpack <;> rfl

theorem isInf_neg (x : Float) : (-x).isInf = x.isInf := by
  rw [Float.isInf, Float.isInf, Float.Model.isInf, Float.Model.isInf, unpack_neg]
  cases x.toModel.unpack <;> rfl

theorem isNegative_neg {x : Float} (h : x.isNaN = false) : isNegative (-x) = !isNegative x := by
  rw [Float.isNaN, Float.Model.isNaN] at h
  rw [isNegative, isNegative, unpack_neg]
  cases hx : x.toModel.unpack with
  | notANumber =>
      rw [hx] at h
      cases h
  | finite s m e hm => cases s <;> rfl
  | infinity s => cases s <;> rfl
  | zero s => cases s <;> rfl

namespace IsNearest

variable {negative : Bool} {q : ℚ} {x : Float}

/-- A number is rounded to a number. -/
theorem isNaN_eq_false (h : IsNearest negative q x) : x.isNaN = false := by
  rw [Float.isNaN, Float.Model.isNaN]
  cases hx : x.toModel.unpack with
  | notANumber =>
      rcases lt_or_ge |q| overflowBound with hlt | hge
      · obtain ⟨v, hv, -⟩ := h.finite hlt
        rw [rational?, hx] at hv
        cases hv
      · have hinf := h.infinite hge
        rw [Float.isInf, Float.Model.isInf, hx] at hinf
        cases hinf
  | _ => rfl

/-- The opposite of a number is rounded to the opposite double. -/
theorem neg (h : IsNearest negative q x) : IsNearest (!negative) (-q) (-x) where
  isNegative_eq := by rw [isNegative_neg h.isNaN_eq_false, h.isNegative_eq]
  infinite hlarge := by
    rw [abs_neg] at hlarge
    rw [isInf_neg, h.infinite hlarge]
  finite hsmall := by
    rw [abs_neg] at hsmall
    obtain ⟨v, hv, hnearest⟩ := h.finite hsmall
    refine ⟨-v, by rw [rational?_neg, hv]; rfl, fun y w hw => ?_⟩
    have hopposite : rational? (-y) = some (-w) := by rw [rational?_neg, hw]; rfl
    obtain ⟨hnear, htie⟩ := hnearest (-y) (-w) hopposite
    have hmirror : |w - -q| = |-w - q| := by rw [← abs_neg, sub_neg_eq_add, neg_add']
    have hmirror' : |-v - -q| = |v - q| := by rw [← abs_neg]; congr 1; ring
    rw [mantissa_neg, hmirror, hmirror']
    exact ⟨hnear, fun hne => htie fun heq => hne (by rw [← heq, neg_neg])⟩

end IsNearest

end FilterEncoding.Number
