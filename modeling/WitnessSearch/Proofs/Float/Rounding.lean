import Mathlib.Algebra.Order.Field.Power
import Mathlib.Tactic.Linarith
import Mathlib.Tactic.Positivity
import Mathlib.Tactic.Ring

/-! Rounding in the model of doubles. A result is first worked out as an integer with two bits for
what is left over, then cut to the precision of a double. What matters here is not which of the two
neighbours is taken but that rounding is monotone: no double lies strictly between a number and what
it is rounded to. -/

namespace WitnessSearch.FloatRounding

open Float.Model UnpackedFloat

def scaled (m : ℕ) (e : ℤ) : ℚ :=
  m * 2 ^ e

theorem scaled_nonneg (m : ℕ) (e : ℤ) : 0 ≤ scaled m e := by
  unfold scaled
  positivity

theorem scaled_pos {m : ℕ} (h : 0 < m) (e : ℤ) : 0 < scaled m e := by
  have hCast : (0 : ℚ) < m := by exact_mod_cast h
  unfold scaled
  positivity

theorem scaled_le_scaled {m n : ℕ} (h : m ≤ n) (e : ℤ) : scaled m e ≤ scaled n e := by
  unfold scaled
  have hCast : (m : ℚ) ≤ n := by exact_mod_cast h
  gcongr

/-- Powers of two may be moved from the significand into the exponent. -/
theorem scaled_mul_pow (m : ℕ) (e : ℤ) (k : ℕ) : scaled (m * 2 ^ k) e = scaled m (e + k) := by
  rw [scaled, scaled, zpow_add₀ two_ne_zero, zpow_natCast]
  push_cast
  ring

theorem scaled_add (m n : ℕ) (e : ℤ) : scaled (m + n) e = scaled m e + scaled n e := by
  rw [scaled, scaled, scaled, Nat.cast_add, add_mul]

theorem le_of_scaled_le {m n : ℕ} {e : ℤ} (h : scaled m e ≤ scaled n e) : m ≤ n := by
  have hPower : (0 : ℚ) < 2 ^ e := by positivity
  exact_mod_cast le_of_mul_le_mul_right h hPower

theorem scaled_sub {m n : ℕ} (h : n ≤ m) (e : ℤ) : scaled (m - n) e = scaled m e - scaled n e := by
  rw [scaled, scaled, scaled, Nat.cast_sub h, sub_mul]

theorem scaled_mul (m n : ℕ) (e f : ℤ) : scaled (m * n) (e + f) = scaled m e * scaled n f := by
  rw [scaled, scaled, scaled, Nat.cast_mul, zpow_add₀ two_ne_zero]
  ring

section Mantissa

/-- The number that a mantissa with its left over bits stands for. -/
structure StandsFor (mantissa : ExtendedMantissa) (x : ℚ) : Prop where
  lower : mantissa.mantissa ≤ x
  upper : x < mantissa.mantissa + 1
  /-- Nothing is left over of a natural number only. -/
  exact : x = mantissa.mantissa ↔ mantissa.roundBit = false ∧ mantissa.stickyBit = false

variable {mantissa : ExtendedMantissa} {x : ℚ}

theorem mantissa_ofMantissaAndAccuracy (m : ℕ) (accuracy : Accuracy) :
    (ExtendedMantissa.ofMantissaAndAccuracy m accuracy).mantissa = m := by
  rcases accuracy with _ | order
  · rfl
  · cases order <;> rfl

/-- A significand without anything cut off stands for itself. -/
theorem standsFor_exact (m : ℕ) : StandsFor (.ofMantissaAndAccuracy m .exact) m where
  lower := le_refl _
  upper := lt_add_one _
  exact := ⟨fun _ => ⟨rfl, rfl⟩, fun _ => rfl⟩

/-- Shifting by one bit halves the number. The bit that is cut off goes into what is known of the
rest. -/
theorem StandsFor.shiftRightOne (h : StandsFor mantissa x) :
    StandsFor mantissa.shiftRightOne (x / 2) := by
  obtain ⟨m, roundBit, stickyBit⟩ := mantissa
  obtain ⟨hLower, hUpper, hExact⟩ := h
  dsimp only at hLower hUpper hExact
  have hHalves : ((2 * (m / 2) + m % 2 : ℕ) : ℚ) = m := by rw [Nat.div_add_mod]
  have hRest : m % 2 = 0 ∨ m % 2 = 1 := Nat.mod_two_eq_zero_or_one m
  push_cast at hHalves
  refine ⟨?_, ?_, ?_⟩ <;> dsimp only [ExtendedMantissa.shiftRightOne]
  · have hNonneg : (0 : ℚ) ≤ ((m % 2 : ℕ) : ℚ) := Nat.cast_nonneg _
    linarith
  · have hSmall : ((m % 2 : ℕ) : ℚ) ≤ 1 := by exact_mod_cast Nat.le_of_lt_succ (Nat.mod_lt m two_pos)
    linarith
  · rcases hRest with hEven | hOdd
    · have hSame : x / 2 = (m / 2 : ℕ) ↔ x = m := by
        rw [hEven, Nat.cast_zero, add_zero] at hHalves
        constructor <;> intro hx <;> linarith
      rw [hSame, hExact, hEven]
      simp
    · have hOther : x / 2 ≠ (m / 2 : ℕ) := by
        rw [hOdd, Nat.cast_one] at hHalves
        intro hx
        linarith
      rw [hOdd]
      simp [hOther]

/-- Shifting by some bits divides the number by a power of two. -/
theorem StandsFor.shiftRight (h : StandsFor mantissa x) (k : ℕ) :
    StandsFor (mantissa >>> k) (x / 2 ^ k) := by
  induction k with
  | zero =>
      rw [pow_zero, div_one]
      exact h
  | succ k ih =>
      rw [pow_succ, ← div_div]
      exact ih.shiftRightOne

/-- Rounding does not go below a natural number. -/
theorem StandsFor.le_rounded (h : StandsFor mantissa x) {b : ℕ} (hb : b ≤ x) :
    b ≤ mantissa.roundedMantissa := by
  have hFloor : b ≤ mantissa.mantissa := by
    have hLess : (b : ℚ) < mantissa.mantissa + 1 := hb.trans_lt h.upper
    exact Nat.lt_succ_iff.mp (by exact_mod_cast hLess)
  refine hFloor.trans ?_
  obtain ⟨m, roundBit, stickyBit⟩ := mantissa
  cases roundBit <;> cases stickyBit <;>
    simp [ExtendedMantissa.roundedMantissa, ExtendedMantissa.accuracy, Accuracy.roundToNearestEven]

/-- Rounding does not go above a natural number. -/
theorem StandsFor.rounded_le (h : StandsFor mantissa x) {b : ℕ} (hb : x ≤ b) :
    mantissa.roundedMantissa ≤ b := by
  have hFloor : mantissa.mantissa ≤ b := by exact_mod_cast h.lower.trans hb
  obtain ⟨m, roundBit, stickyBit⟩ := mantissa
  by_cases hExact : x = m
  · obtain ⟨hRound, hSticky⟩ := h.exact.mp hExact
    dsimp only at hRound hSticky
    subst hRound hSticky
    exact hFloor
  · have hCeiling : m + 1 ≤ b := by
      have hLess : (m : ℚ) < b := (lt_of_le_of_ne h.lower (Ne.symm hExact)).trans_le hb
      exact_mod_cast hLess
    refine le_trans ?_ hCeiling
    cases roundBit <;> cases stickyBit <;>
      simp [ExtendedMantissa.roundedMantissa, ExtendedMantissa.accuracy,
        Accuracy.roundToNearestEven]
    exact Nat.le_of_lt_succ (Nat.mod_lt m two_pos)

end Mantissa

/-- A significand and an exponent as a double has them. -/
structure Canonical (m : ℕ) (e : ℤ) : Prop where
  bits : m < 2 ^ 53
  least : -1074 ≤ e
  /-- Only with the least exponent there may be bits to spare. -/
  full : 2 ^ 52 ≤ m ∨ e = -1074

/-- The double in parts with the given significand, which may be zero. -/
def magnitude (sign : Sign) (m : ℕ) (e : ℤ) : UnpackedFloat :=
  if h : m = 0 then .zero sign else .finite sign m e (Nat.pos_of_ne_zero h)

theorem magnitude_zero (sign : Sign) (e : ℤ) : magnitude sign 0 e = .zero sign :=
  rfl

theorem magnitude_of_pos (sign : Sign) {m : ℕ} (e : ℤ) (h : 0 < m) :
    magnitude sign m e = .finite sign m e h :=
  dif_neg h.ne'

/-- No double lies strictly between a number and the other one. The significand of the double may be
the first that takes one bit too many. -/
structure Near (x rounded : ℚ) : Prop where
  not_above : ∀ {b : ℕ} {f : ℤ}, b ≤ 2 ^ 53 → -1074 ≤ f → x ≤ scaled b f → rounded ≤ scaled b f
  not_below : ∀ {b : ℕ} {f : ℤ}, b ≤ 2 ^ 53 → -1074 ≤ f → scaled b f ≤ x → scaled b f ≤ rounded

section Round

/-- The exponent is chosen so that the significand has 53 bits, or is the least one there is. -/
theorem targetExponent_eq (m : ℕ) (e : ℤ) :
    Format.binary64.targetExponent (totalExponent m e) = max (m.log2 + e - 52) (-1074) := by
  change max ((m.log2 : ℤ) + 1 + e - 53) (-1074) = _
  omega

/-- A significand of up to 53 bits is not shifted, provided that the exponent is not too small. -/
theorem shiftToTarget_of_bits {m : ℕ} {e : ℤ} (hBits : m < 2 ^ 53) (hLeast : -1074 ≤ e) :
    shiftToTargetExponent Format.binary64 m e .exact = (⟨m, false, false⟩, e) := by
  have hLog : m.log2 ≤ 52 := by
    by_cases hZero : m = 0
    · simp [hZero]
    · exact Nat.lt_succ_iff.mp ((Nat.log2_lt hZero).mpr hBits)
  have hShift : (max (m.log2 + e - 52) (-1074) - e).toNat = 0 := by omega
  rw [shiftToTargetExponent, targetExponent_eq, shiftToExponent, hShift, Nat.cast_zero, add_zero]
  rfl

/-- A significand that rounding has carried to one bit more is shifted back without loss. -/
theorem shiftToTarget_of_carry {e : ℤ} (hLeast : -1074 ≤ e) :
    shiftToTargetExponent Format.binary64 (2 ^ 53) e .exact = (⟨2 ^ 52, false, false⟩, e + 1) := by
  have hShift : (max (((2 ^ 53 : ℕ).log2 : ℤ) + e - 52) (-1074) - e).toNat = 1 := by
    rw [Nat.log2_two_pow]
    omega
  rw [shiftToTargetExponent, targetExponent_eq, shiftToExponent, hShift, Nat.cast_one]
  rfl

/-- A number that fills the precision, rounded to a natural number, is rounded as a double. A double
of smaller exponent lies between the two only at the edge of the precision, and the edge is itself a
natural number. -/
theorem near_of_integer {y : ℚ} {r : ℕ} {t : ℤ} (hFull : 2 ^ 52 ≤ y ∨ t = -1074)
    (hAbove : ∀ b : ℕ, y ≤ b → r ≤ b) (hBelow : ∀ b : ℕ, b ≤ y → b ≤ r) :
    Near (y * 2 ^ t) (scaled r t) := by
  have hPower : (0 : ℚ) < 2 ^ t := by positivity
  have hCoarse : ∀ {b : ℕ} {f : ℤ}, t ≤ f → scaled b f = ((b * 2 ^ (f - t).toNat : ℕ) : ℚ) * 2 ^ t := by
    intro b f hft
    obtain ⟨k, rfl⟩ := Int.le.dest hft
    rw [add_sub_cancel_left, Int.toNat_natCast, ← scaled_mul_pow, scaled]
  have hFine : ∀ {b : ℕ} {f : ℤ}, b ≤ 2 ^ 53 → -1074 ≤ f → f < t →
      scaled b f ≤ 2 ^ 52 * 2 ^ t ∧ (2 ^ 52 : ℕ) ≤ y := by
    intro b f hb hf hft
    have hOne : scaled b f ≤ scaled (2 ^ 53) (t - 1) := by
      refine (scaled_le_scaled hb f).trans ?_
      unfold scaled
      gcongr
      · exact one_le_two
      · omega
    refine ⟨hOne.trans_eq ?_, ?_⟩
    · have hCarry := scaled_mul_pow (2 ^ 52) (t - 1) 1
      rw [Nat.cast_one, sub_add_cancel] at hCarry
      rw [show (2 ^ 53 : ℕ) = 2 ^ 52 * 2 ^ 1 from rfl, hCarry, scaled]
      norm_num
    · push_cast
      exact hFull.resolve_right (by omega)
  constructor
  · intro b f hb hf hx
    rcases le_or_gt t f with hft | hft
    · rw [hCoarse hft] at hx ⊢
      exact mul_le_mul_of_nonneg_right (by exact_mod_cast hAbove _ (le_of_mul_le_mul_right hx hPower))
        hPower.le
    · obtain ⟨hSmall, hLarge⟩ := hFine hb hf hft
      have hEdge : y ≤ (2 ^ 52 : ℕ) := by
        have := le_of_mul_le_mul_right (hx.trans hSmall) hPower
        push_cast
        exact this
      have hr : r = 2 ^ 52 := le_antisymm (hAbove _ hEdge) (hBelow _ hLarge)
      rw [hr, scaled]
      refine le_trans ?_ hx
      exact mul_le_mul_of_nonneg_right hLarge hPower.le
  · intro b f hb hf hx
    rcases le_or_gt t f with hft | hft
    · rw [hCoarse hft] at hx ⊢
      exact mul_le_mul_of_nonneg_right (by exact_mod_cast hBelow _ (le_of_mul_le_mul_right hx hPower))
        hPower.le
    · obtain ⟨hSmall, hLarge⟩ := hFine hb hf hft
      have hr : (2 ^ 52 : ℚ) ≤ r := by exact_mod_cast hBelow _ hLarge
      exact hSmall.trans (mul_le_mul_of_nonneg_right hr hPower.le)

/-- A shift to the exponent that a double has leaves a number that fills the precision, unless the
exponent is the least one. -/
theorem shifted_bounds {m : ℕ} {e : ℤ} {x : ℚ} (hLower : m ≤ x) (hUpper : x < m + 1)
    (hExponent : e ≤ max (m.log2 + e - 52) (-1074)) {k : ℕ}
    (hk : e + k = max (m.log2 + e - 52) (-1074)) :
    x / 2 ^ k ≤ (2 ^ 53 : ℕ) ∧ (2 ^ 52 ≤ x / 2 ^ k ∨ e + k = -1074) := by
  have hPower : (0 : ℚ) < 2 ^ k := by positivity
  constructor
  · rw [div_le_iff₀ hPower]
    have hBits : m + 1 ≤ 2 ^ 53 * 2 ^ k := by
      rw [← pow_add]
      exact (Nat.lt_log2_self).trans_le (Nat.pow_le_pow_right two_pos (by omega))
    exact hUpper.le.trans (by exact_mod_cast hBits)
  · by_cases hLeast : e + k = -1074
    · exact Or.inr hLeast
    · left
      rw [le_div_iff₀ hPower]
      have hZero : m ≠ 0 := by
        rintro rfl
        rw [Nat.log2_zero] at hk hExponent
        omega
      have hBits : 2 ^ 52 * 2 ^ k ≤ m := by
        rw [← pow_add]
        exact (Nat.pow_le_pow_right two_pos (by omega)).trans (Nat.log2_self_le hZero)
      refine le_trans ?_ hLower
      exact_mod_cast hBits

/-- Rounding yields a double near the number that the mantissa stands for, provided that its
exponent is not too large to begin with. -/
theorem roundWithAccuracy_near {m : ℕ} {e : ℤ} {accuracy : Accuracy} {x : ℚ} (sign : Sign)
    (h : StandsFor (.ofMantissaAndAccuracy m accuracy) x)
    (hExponent : e ≤ max (m.log2 + e - 52) (-1074)) :
    ∃ r t, roundWithAccuracy Format.binary64 sign m e accuracy = magnitude sign r t ∧
      Canonical r t ∧ Near (x * 2 ^ e) (scaled r t) := by
  obtain ⟨k, hk⟩ := Int.le.dest hExponent
  have hMantissa := mantissa_ofMantissaAndAccuracy m accuracy
  have hLower := hMantissa ▸ h.lower
  have hUpper := hMantissa ▸ h.upper
  obtain ⟨hBits, hFull⟩ := shifted_bounds hLower hUpper hExponent hk
  have hShifted := h.shiftRight k
  have hLeast : -1074 ≤ e + k := by omega
  have hScale : x * 2 ^ e = x / 2 ^ k * 2 ^ (e + k) := by
    rw [zpow_add₀ two_ne_zero, zpow_natCast, mul_comm (2 ^ e : ℚ), ← mul_assoc,
      div_mul_cancel₀ x (pow_ne_zero k two_ne_zero)]
  obtain ⟨em, hem⟩ : ∃ em, em = ExtendedMantissa.ofMantissaAndAccuracy m accuracy >>> k := ⟨_, rfl⟩
  rw [← hem] at hShifted
  have hFirst : shiftToTargetExponent Format.binary64 m e accuracy = (em, e + k) := by
    have hShift : (max (m.log2 + e - 52) (-1074) - e).toNat = k := by omega
    rw [shiftToTargetExponent, targetExponent_eq, shiftToExponent, hShift, hem]
  have hNear := near_of_integer hFull (fun b => hShifted.rounded_le) (fun b => hShifted.le_rounded)
  rw [← hScale] at hNear
  rcases (hShifted.rounded_le hBits).lt_or_eq with hFits | hCarry
  · refine ⟨em.roundedMantissa, e + k, ?_, ⟨hFits, hLeast, ?_⟩, hNear⟩
    · rw [roundWithAccuracy, hFirst]
      dsimp only
      rw [shiftToTarget_of_bits hFits hLeast]
      rfl
    · refine hFull.imp_left fun hy => hShifted.le_rounded ?_
      push_cast
      exact hy
  · refine ⟨2 ^ 52, e + k + 1, ?_, ⟨by norm_num, by omega, Or.inl le_rfl⟩, ?_⟩
    · rw [roundWithAccuracy, hFirst]
      dsimp only
      rw [hCarry, shiftToTarget_of_carry hLeast]
      rfl
    · rw [hCarry, show (2 ^ 53 : ℕ) = 2 ^ 52 * 2 ^ 1 from rfl, scaled_mul_pow] at hNear
      exact hNear

end Round

end WitnessSearch.FloatRounding
