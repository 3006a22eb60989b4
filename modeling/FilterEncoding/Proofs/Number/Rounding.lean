import Mathlib

/-!
# Rounding to a double

A result is cut to the 53 bits of a significand in two steps: the mantissa is shifted until it has
the exponent of the doubles of its size, with two bits kept of all that is shifted out, and then it
is rounded by these two bits.  `RoundsTo q f` says that the rational number `q` is rounded to `f`
when the exponent may be of any size.

* `StandsFor.shiftRight` — the two bits tell whether the rest is nothing, a half, or less or more
  than a half.
* `roundsTo_mul`, `roundsTo_div`, `roundsTo_ofNat` — products, quotients and integers are rounded
  once, from their exact value.
-/

namespace FilterEncoding.Number

open Float.Model (Format UnpackedFloat totalExponent)
open Float.Model.Format (binary64)
open Float.Model.UnpackedFloat

/-! ## Rounding to an integer -/

/-- Rounding to the nearest integer; of two equally near ones the even one is taken. -/
structure IsRounded (r : ℕ) (x : ℚ) : Prop where
  near : |(r : ℚ) - x| ≤ 1 / 2
  even : |(r : ℚ) - x| = 1 / 2 → Even r

/-- No other integer is nearer, and only an even one has another as near. -/
theorem IsRounded.nearest {r : ℕ} {x : ℚ} (h : IsRounded r x) (k : ℕ) :
    |(r : ℚ) - x| ≤ |(k : ℚ) - x| ∧ (k ≠ r → |(k : ℚ) - x| = |(r : ℚ) - x| → Even r) := by
  by_cases hk : k = r
  · exact ⟨le_of_eq (by rw [hk]), fun hne => absurd hk hne⟩
  · have hstep : (1 : ℚ) ≤ |(k : ℚ) - r| := by
      have hint : (1 : ℤ) ≤ |(k : ℤ) - r| := Int.one_le_abs (sub_ne_zero.2 (by exact_mod_cast hk))
      exact_mod_cast hint
    have hsum : |(k : ℚ) - r| ≤ |(k : ℚ) - x| + |(r : ℚ) - x| := by
      rw [abs_sub_comm (r : ℚ) x]
      exact abs_sub_le _ _ _
    have hnear := h.near
    refine ⟨by linarith, fun _ heq => h.even (by linarith)⟩

/-- What a rest below one unit looks like from the two bits kept of it. -/
def Describes : Accuracy → ℚ → Prop
  | .exact, δ => δ = 0
  | .inexact o, δ => 0 < δ ∧ δ < 1 ∧ compare δ (1 / 2) = o

theorem describes_exact : Describes .exact 0 :=
  rfl

theorem Describes.range {a : Accuracy} {δ : ℚ} (h : Describes a δ) : 0 ≤ δ ∧ δ < 1 := by
  cases a with
  | exact =>
      have hδ : δ = 0 := h
      rw [hδ]
      exact ⟨le_rfl, one_pos⟩
  | inexact o => exact ⟨h.1.le, h.2.1⟩

theorem Describes.isRounded {a : Accuracy} {δ : ℚ} (h : Describes a δ) (m : ℕ) :
    IsRounded (a.roundToNearestEven m) (m + δ) := by
  cases a with
  | exact =>
      have hδ : δ = 0 := h
      constructor <;> simp [hδ, Accuracy.roundToNearestEven]
  | inexact o =>
      obtain ⟨hpos, hlt, horder⟩ := h
      cases o with
      | lt =>
          have hδ : δ < 1 / 2 := compare_lt_iff_lt.1 horder
          have habs : |(m : ℚ) - (m + δ)| = δ := by
            rw [sub_add_cancel_left, abs_neg, abs_of_pos hpos]
          exact ⟨habs.trans_le hδ.le, fun heq => absurd (habs.symm.trans heq) hδ.ne⟩
      | eq =>
          have hδ : δ = 1 / 2 := compare_eq_iff_eq.1 horder
          have hmod : m % 2 = 0 ∨ m % 2 = 1 := Nat.mod_two_eq_zero_or_one m
          have habs : |((m + m % 2 : ℕ) : ℚ) - (m + δ)| = 1 / 2 := by
            rcases hmod with hmod | hmod
            · rw [hmod, hδ, Nat.add_zero, sub_add_cancel_left, abs_neg, abs_of_pos (by norm_num)]
            · rw [hmod, hδ, Nat.cast_add, add_sub_add_left_eq_sub, Nat.cast_one]
              norm_num
          exact ⟨habs.le, fun _ => Nat.even_iff.2 (by
            show (m + m % 2) % 2 = 0
            omega)⟩
      | gt =>
          have hδ : 1 / 2 < δ := compare_gt_iff_gt.1 horder
          have habs : |((m + 1 : ℕ) : ℚ) - (m + δ)| = 1 - δ := by
            rw [Nat.cast_add, add_sub_add_left_eq_sub, Nat.cast_one, abs_of_pos (by linarith)]
          have hlow : 1 - δ < 1 / 2 := by linarith
          exact ⟨habs.trans_le hlow.le, fun heq => absurd (habs.symm.trans heq) hlow.ne⟩

/-! ## Mantissas that are shifted -/

/-- A mantissa with the two bits kept of the rest stands for a number. -/
def StandsFor (em : ExtendedMantissa) (x : ℚ) : Prop :=
  Describes em.accuracy (x - em.mantissa)

theorem StandsFor.isRounded {em : ExtendedMantissa} {x : ℚ} (h : StandsFor em x) :
    IsRounded em.roundedMantissa x := by
  have hrounded := Describes.isRounded h em.mantissa
  rwa [add_sub_cancel] at hrounded

theorem standsFor_ofMantissaAndAccuracy {a : Accuracy} {δ : ℚ} (h : Describes a δ) (m : ℕ) :
    StandsFor (ExtendedMantissa.ofMantissaAndAccuracy m a) (m + δ) := by
  have haccuracy : (ExtendedMantissa.ofMantissaAndAccuracy m a).accuracy = a := by
    cases a with
    | exact => rfl
    | inexact o => cases o <;> rfl
  have hmantissa : (ExtendedMantissa.ofMantissaAndAccuracy m a).mantissa = m := by
    cases a with
    | exact => rfl
    | inexact o => cases o <;> rfl
  rwa [StandsFor, haccuracy, hmantissa, add_sub_cancel_left]

/-- Halving keeps track of the bit that is lost. -/
theorem StandsFor.shiftRightOne {em : ExtendedMantissa} {x : ℚ} (h : StandsFor em x) :
    StandsFor em.shiftRightOne (x / 2) := by
  obtain ⟨m, round, sticky⟩ := em
  have hrest : x / 2 - ((m / 2 : ℕ) : ℚ) = ((m % 2 : ℕ) + (x - m)) / 2 := by
    have hm : (2 * (m / 2 : ℕ) + (m % 2 : ℕ) : ℚ) = m := by exact_mod_cast Nat.div_add_mod m 2
    linarith
  have hexact : (round || sticky) = false → x - m = 0 := by
    intro hbits
    obtain ⟨rfl, rfl⟩ := Bool.or_eq_false_iff.1 hbits
    exact h
  have hinexact : (round || sticky) = true → 0 < x - m ∧ x - m < 1 := by
    cases round <;> cases sticky <;> intro hbits
    · cases hbits
    all_goals exact ⟨h.1, h.2.1⟩
  show Describes (ExtendedMantissa.accuracy ⟨m / 2, m % 2 != 0, round || sticky⟩)
    (x / 2 - ((m / 2 : ℕ) : ℚ))
  rw [hrest]
  rcases Nat.mod_two_eq_zero_or_one m with hm | hm
  · cases hbits : (round || sticky) with
    | false => simp [hm, hexact hbits, ExtendedMantissa.accuracy, Describes]
    | true =>
        obtain ⟨hpos, hlt⟩ := hinexact hbits
        simp only [hm, ExtendedMantissa.accuracy, Describes, Nat.cast_zero, zero_add]
        refine ⟨by linarith, by linarith, compare_lt_iff_lt.2 (by linarith)⟩
  · cases hbits : (round || sticky) with
    | false =>
        simp only [hm, hexact hbits, ExtendedMantissa.accuracy, Describes, Nat.cast_one, add_zero]
        refine ⟨by norm_num, by norm_num, compare_eq_iff_eq.2 rfl⟩
    | true =>
        obtain ⟨hpos, hlt⟩ := hinexact hbits
        simp only [hm, ExtendedMantissa.accuracy, Describes, Nat.cast_one]
        refine ⟨by linarith, by linarith, compare_gt_iff_gt.2 (by linarith)⟩

theorem StandsFor.shiftRight {em : ExtendedMantissa} {x : ℚ} (h : StandsFor em x) (k : ℕ) :
    StandsFor (em >>> k) (x / 2 ^ k) := by
  induction k with
  | zero => simpa [HShiftRight.hShiftRight, Nat.repeat] using h
  | succ k ih =>
      have hstep := ih.shiftRightOne
      rwa [div_div, ← pow_succ] at hstep

/-! ## Rounding to the significand of a double -/

/-- A number in units of `2 ^ t`, where `t` is the exponent of the doubles of its size. -/
structure FitsUnit (t : ℤ) (y : ℚ) : Prop where
  least : -1074 ≤ t
  nonneg : 0 ≤ y
  below : y < 2 ^ 53
  normal : t ≠ -1074 → 2 ^ 52 ≤ y

/-- The double with a rounded significand; one that is rounded up to the next power of two has the
next exponent. -/
def rounded (r : ℕ) (t : ℤ) : UnpackedFloat :=
  if h : r = 0 then .zero .positive
  else if r = 2 ^ 53 then .finite .positive (2 ^ 52) (t + 1) (by decide)
  else .finite .positive r t (Nat.pos_of_ne_zero h)

/-- A double, with an exponent of any size, that a number is rounded to. -/
def RoundsTo (x : ℚ) (f : UnpackedFloat) : Prop :=
  ∃ t y r, x = y * 2 ^ t ∧ FitsUnit t y ∧ IsRounded r y ∧ f = rounded r t

theorem targetExponent_eq (m : ℕ) (e : ℤ) :
    binary64.targetExponent (totalExponent m e) = max (m.log2 + e - 52) (-1074) := by
  have hmin : binary64.minExponent = -1074 := rfl
  have hbits : (binary64.mantissaBits : ℤ) = 53 := rfl
  rw [Format.targetExponent, totalExponent, hmin, hbits]
  congr 1
  omega

theorem IsRounded.le_pow {r : ℕ} {y : ℚ} {k : ℕ} (h : IsRounded r y) (hy : y < 2 ^ k) :
    r ≤ 2 ^ k := by
  have hnear := (abs_le.1 h.near).2
  have hlt : (r : ℚ) < ((2 ^ k + 1 : ℕ) : ℚ) := by
    push_cast
    linarith
  exact Nat.lt_succ_iff.1 (by exact_mod_cast hlt)

theorem IsRounded.pow_le {r : ℕ} {y : ℚ} {k : ℕ} (h : IsRounded r y) (hy : 2 ^ k ≤ y) :
    2 ^ k ≤ r := by
  have hnear := (abs_le.1 h.near).1
  have hlt : ((2 ^ k : ℕ) : ℚ) < ((r + 1 : ℕ) : ℚ) := by
    push_cast
    linarith
  exact Nat.lt_succ_iff.1 (by exact_mod_cast hlt)

theorem log2_lt_of_lt {m k : ℕ} (hk : 0 < k) (hm : m < 2 ^ k) : m.log2 < k := by
  rcases Nat.eq_zero_or_pos m with rfl | hpos
  · exact hk
  · exact (Nat.log2_lt hpos.ne').2 hm

/-- A significand that has its exponent already, or one carried to the next power of two. -/
theorem shiftToTargetExponent_rounded {r : ℕ} {t : ℤ} (ht : -1074 ≤ t) (hr : r ≤ 2 ^ 53) :
    shiftToTargetExponent binary64 r t .exact =
      if r = 2 ^ 53 then (⟨2 ^ 52, false, false⟩, t + 1) else (⟨r, false, false⟩, t) := by
  rw [shiftToTargetExponent, targetExponent_eq, shiftToExponent]
  split
  · next h =>
    have hshift : (max (((2 ^ 53 : ℕ).log2 : ℤ) + t - 52) (-1074) - t).toNat = 1 := by
      rw [Nat.log2_two_pow]
      omega
    rw [h, hshift]
    rfl
  · next h =>
    have hlog : r.log2 < 53 := log2_lt_of_lt (by decide) (lt_of_le_of_ne hr h)
    have hshift : (max ((r.log2 : ℤ) + t - 52) (-1074) - t).toNat = 0 := by omega
    rw [hshift, Nat.cast_zero, add_zero]
    rfl

theorem two_zpow_pos (k : ℤ) : (0 : ℚ) < 2 ^ k :=
  zpow_pos (by norm_num) k

/-- A mantissa that is shifted down to 53 bits, with the rest behind it. -/
theorem fitsUnit_shifted {m k : ℕ} {t : ℤ} {δ : ℚ} (hδ : 0 ≤ δ ∧ δ < 1) (ht : -1074 ≤ t)
    (hlog : m.log2 ≤ 52 + k) (hnormal : t ≠ -1074 → m.log2 = 52 + k) :
    FitsUnit t ((m + δ) / 2 ^ k) where
  least := ht
  nonneg := div_nonneg (add_nonneg m.cast_nonneg hδ.1) (by positivity)
  below := by
    have hm : m + 1 ≤ 2 ^ (53 + k) :=
      Nat.lt_log2_self.trans_le (Nat.pow_le_pow_right (by decide) (by omega))
    have hcast : (m : ℚ) + 1 ≤ 2 ^ (53 + k) := by exact_mod_cast hm
    rw [div_lt_iff₀ (by positivity), ← pow_add]
    linarith
  normal hne := by
    have hm : m ≠ 0 := by
      rintro rfl
      have hzero := hnormal hne
      rw [Nat.log2_zero] at hzero
      omega
    have hcast : (2 : ℚ) ^ m.log2 ≤ m := by exact_mod_cast Nat.log2_self_le hm
    rw [le_div_iff₀ (by positivity), ← pow_add, ← hnormal hne]
    linarith

/-- Rounding an approximation that is fine enough rounds the number that is approximated. -/
theorem roundsTo_roundWithAccuracy {m : ℕ} {e : ℤ} {a : Accuracy} {δ : ℚ}
    (ha : Describes a δ) (he : e ≤ max (m.log2 + e - 52) (-1074)) :
    RoundsTo ((m + δ) * 2 ^ e) (roundWithAccuracy binary64 .positive m e a) := by
  obtain ⟨t, ht⟩ : ∃ t : ℤ, t = max (m.log2 + e - 52) (-1074) := ⟨_, rfl⟩
  obtain ⟨k, hk⟩ : ∃ k : ℕ, t = e + k := ⟨(t - e).toNat, by omega⟩
  have hpow : ((m : ℚ) + δ) * 2 ^ e = (m + δ) / 2 ^ k * 2 ^ t := by
    rw [hk, zpow_add₀ two_ne_zero, zpow_natCast]
    field_simp
  have hfits : FitsUnit t ((m + δ) / 2 ^ k) :=
    fitsUnit_shifted ha.range (by omega) (by omega) (by omega)
  have hshift : shiftToTargetExponent binary64 m e a =
      (ExtendedMantissa.ofMantissaAndAccuracy m a >>> k, t) := by
    have hamount : (t - e).toNat = k := by omega
    rw [shiftToTargetExponent, targetExponent_eq, ← ht, shiftToExponent, hamount, ← hk]
  have hround := ((standsFor_ofMantissaAndAccuracy ha m).shiftRight k).isRounded
  have hr := hround.le_pow hfits.below
  refine ⟨t, _, _, hpow, hfits, hround, ?_⟩
  -- What is rounded is shifted once more, in case it was carried to the next power of two.
  rw [roundWithAccuracy, hshift]
  dsimp only
  generalize (ExtendedMantissa.ofMantissaAndAccuracy m a >>> k).roundedMantissa = r at hr ⊢
  rw [shiftToTargetExponent_rounded hfits.least hr, rounded]
  by_cases hcarry : r = 2 ^ 53
  · rw [if_pos hcarry, dif_neg (by omega : r ≠ 0), if_pos hcarry]
    rfl
  · rw [if_neg hcarry]
    by_cases hzero : r = 0
    · rw [dif_pos hzero, dif_pos hzero]
    · rw [dif_neg hzero, dif_neg hzero, if_neg hcarry]

/-! ## Products, quotients and integers -/

/-- Rounding a number of sufficiently many bits. -/
theorem roundsTo_of_pow_le {m : ℕ} (hm : 2 ^ 52 ≤ m) (e : ℤ) {a : Accuracy} {δ : ℚ}
    (ha : Describes a δ) :
    RoundsTo ((m + δ) * 2 ^ e) (roundWithAccuracy binary64 .positive m e a) := by
  have hlog : 52 ≤ m.log2 := (Nat.le_log2 (by omega)).2 hm
  exact roundsTo_roundWithAccuracy ha (by omega)

theorem roundsTo_mul {m₁ m₂ : ℕ} (e₁ e₂ : ℤ) (h₁ : 0 < m₁) (h₂ : 0 < m₂)
    (hm : 2 ^ 52 ≤ m₁ * m₂) :
    RoundsTo (m₁ * 2 ^ e₁ * (m₂ * 2 ^ e₂))
      (mul binary64 (.finite .positive m₁ e₁ h₁) (.finite .positive m₂ e₂ h₂)) := by
  have hrounds := roundsTo_of_pow_le hm (e₁ + e₂) describes_exact
  have hvalue : ((m₁ * m₂ : ℕ) + 0 : ℚ) * 2 ^ (e₁ + e₂) = m₁ * 2 ^ e₁ * (m₂ * 2 ^ e₂) := by
    rw [zpow_add₀ two_ne_zero]
    push_cast
    ring
  rwa [hvalue] at hrounds

theorem describes_accuracyOfFraction {num den : ℕ} (h : num < den) :
    Describes (accuracyOfFraction num den) (num / den) := by
  have hden : (0 : ℚ) < den := by exact_mod_cast Nat.zero_lt_of_lt h
  unfold accuracyOfFraction
  split
  · next hzero =>
    show (num / den : ℚ) = 0
    rw [hzero, Nat.cast_zero, zero_div]
  · next hzero =>
    have hnum : (0 : ℚ) < num := by exact_mod_cast Nat.pos_of_ne_zero hzero
    refine ⟨div_pos hnum hden, (div_lt_one hden).2 (by exact_mod_cast h), ?_⟩
    rcases Nat.lt_trichotomy (2 * num) den with hlt | heq | hgt
    · rw [compare_lt_iff_lt.2 hlt, compare_lt_iff_lt, div_lt_iff₀ hden]
      have hcast : (2 * num : ℚ) < den := by exact_mod_cast hlt
      linarith
    · rw [compare_eq_iff_eq.2 heq, compare_eq_iff_eq, div_eq_iff hden.ne']
      have hcast : (2 * num : ℚ) = den := by exact_mod_cast heq
      linarith
    · rw [compare_gt_iff_gt.2 hgt, compare_gt_iff_gt, lt_div_iff₀ hden]
      have hcast : (den : ℚ) < 2 * num := by exact_mod_cast hgt
      linarith

/-- The quotient is taken in units small enough for the bits of a significand. -/
theorem pow_le_quotient {m₁ m₂ k : ℕ} (h₁ : 0 < m₁) (h₂ : 0 < m₂)
    (hk : m₂.log2 + 53 ≤ m₁.log2 + k) : 2 ^ 52 ≤ m₁ * 2 ^ k / m₂ := by
  rw [Nat.le_div_iff_mul_le h₂]
  calc 2 ^ 52 * m₂ ≤ 2 ^ 52 * 2 ^ (m₂.log2 + 1) :=
        Nat.mul_le_mul_left _ Nat.lt_log2_self.le
    _ = 2 ^ (m₂.log2 + 53) := by rw [← pow_add]; congr 1; omega
    _ ≤ 2 ^ (m₁.log2 + k) := Nat.pow_le_pow_right (by decide) hk
    _ = 2 ^ m₁.log2 * 2 ^ k := pow_add _ _ _
    _ ≤ m₁ * 2 ^ k := Nat.mul_le_mul_right _ (Nat.log2_self_le h₁.ne')

/-- The integer quotient and the rest of the division make up the quotient. -/
theorem quotient_eq {m₁ m₂ k : ℕ} {e₁ e₂ u : ℤ} (h₂ : 0 < m₂) (hk : e₁ - e₂ = u + k) :
    (m₁ * 2 ^ e₁ / (m₂ * 2 ^ e₂) : ℚ) =
      ((m₁ * 2 ^ k / m₂ : ℕ) + (m₁ * 2 ^ k % m₂ : ℕ) / m₂) * 2 ^ u := by
  have hm₂ : (m₂ : ℚ) ≠ 0 := by exact_mod_cast h₂.ne'
  have hsplit : (m₂ * (m₁ * 2 ^ k / m₂ : ℕ) + (m₁ * 2 ^ k % m₂ : ℕ) : ℚ) = m₁ * 2 ^ k := by
    exact_mod_cast Nat.div_add_mod (m₁ * 2 ^ k) m₂
  have hpow : (2 : ℚ) ^ e₁ = 2 ^ u * 2 ^ k * 2 ^ e₂ := by
    rw [← zpow_natCast, ← zpow_add₀ two_ne_zero, ← zpow_add₀ two_ne_zero]
    congr 1
    omega
  have hnonzero : (2 : ℚ) ^ e₂ ≠ 0 := (two_zpow_pos e₂).ne'
  rw [hpow]
  field_simp
  linarith

theorem divCore_eq {m₁ m₂ k : ℕ} {e₁ e₂ u : ℤ}
    (hu : u = min (e₁ - e₂) (max (m₁.log2 + e₁ - (m₂.log2 + e₂) - 53) (-1074)))
    (hk : e₁ - e₂ = u + k) :
    divCore binary64 m₁ e₁ m₂ e₂ =
      (m₁ * 2 ^ k / m₂, u, accuracyOfFraction (m₁ * 2 ^ k % m₂) m₂) := by
  have htarget : binary64.targetExponent (totalExponent m₁ e₁ - totalExponent m₂ e₂) =
      max (m₁.log2 + e₁ - (m₂.log2 + e₂) - 53) (-1074) := by
    have hmin : binary64.minExponent = -1074 := rfl
    have hbits : (binary64.mantissaBits : ℤ) = 53 := rfl
    rw [Format.targetExponent, totalExponent, totalExponent, hmin, hbits]
    congr 1
    omega
  have hshift : (e₁ - e₂ - u).toNat = k := by omega
  simp only [divCore, htarget, ← hu, hshift, Nat.shiftLeft_eq]

theorem roundsTo_div {m₁ m₂ : ℕ} (e₁ e₂ : ℤ) (h₁ : 0 < m₁) (h₂ : 0 < m₂) :
    RoundsTo (m₁ * 2 ^ e₁ / (m₂ * 2 ^ e₂))
      (div binary64 (.finite .positive m₁ e₁ h₁) (.finite .positive m₂ e₂ h₂)) := by
  obtain ⟨u, hu⟩ : ∃ u : ℤ, u = min (e₁ - e₂)
      (max (m₁.log2 + e₁ - (m₂.log2 + e₂) - 53) (-1074)) := ⟨_, rfl⟩
  obtain ⟨k, hk⟩ : ∃ k : ℕ, e₁ - e₂ = u + k := ⟨(e₁ - e₂ - u).toNat, by omega⟩
  have hdescribes := describes_accuracyOfFraction (Nat.mod_lt (m₁ * 2 ^ k) h₂)
  have hdiv : div binary64 (.finite .positive m₁ e₁ h₁) (.finite .positive m₂ e₂ h₂) =
      roundWithAccuracy binary64 .positive (m₁ * 2 ^ k / m₂) u
        (accuracyOfFraction (m₁ * 2 ^ k % m₂) m₂) := by
    rw [UnpackedFloat.div, divCore_eq hu hk]
    rfl
  rw [quotient_eq h₂ hk, hdiv]
  -- Either the quotient has all bits of a significand, or it has the least exponent.
  rcases Int.lt_or_le (-1074) u with hlarge | hsmall
  · exact roundsTo_of_pow_le (pow_le_quotient h₁ h₂ (by omega)) u hdescribes
  · exact roundsTo_roundWithAccuracy hdescribes (by omega)

theorem roundsTo_ofNat {n : ℕ} (hn : 0 < n) (hlt : n < 2 ^ 53) :
    RoundsTo n (ofNat binary64 n) := by
  have hlog : n.log2 < 53 := log2_lt_of_lt (by decide) hlt
  have hshift : (0 - max ((n.log2 : ℤ) + 0 - 52) (-1074)).toNat = 52 - n.log2 := by omega
  have hround : ofNat binary64 n =
      roundWithAccuracy binary64 .positive (n * 2 ^ (52 - n.log2))
        (0 - (52 - n.log2 : ℕ)) .exact := by
    have hcompare : compare (n : ℤ) 0 = .gt := Int.compare_eq_gt.2 (by omega)
    simp only [ofNat, ofInt, UnpackedFloat.normalize, hcompare, Int.toNat_natCast,
      UnpackedFloat.round, targetExponent_eq, decreaseExponent, hshift, Nat.shiftLeft_eq]
  have hbits : 2 ^ 52 ≤ n * 2 ^ (52 - n.log2) := by
    calc 2 ^ 52 = 2 ^ n.log2 * 2 ^ (52 - n.log2) := by rw [← pow_add]; congr 1; omega
      _ ≤ n * 2 ^ (52 - n.log2) := Nat.mul_le_mul_right _ (Nat.log2_self_le hn.ne')
  have hrounds := roundsTo_of_pow_le hbits (0 - (52 - n.log2 : ℕ)) describes_exact
  have hvalue : ((n * 2 ^ (52 - n.log2) : ℕ) + 0 : ℚ) * 2 ^ (0 - ((52 - n.log2 : ℕ) : ℤ)) = n := by
    rw [add_zero, zero_sub, zpow_neg, zpow_natCast]
    push_cast
    field_simp
  rwa [hvalue, ← hround] at hrounds

end FilterEncoding.Number
