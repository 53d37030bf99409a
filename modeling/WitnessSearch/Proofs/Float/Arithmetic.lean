import WitnessSearch.Proofs.Float.Values

/-! Arithmetic on doubles that are not negative. The result of an operation is the exact one,
rounded. It is infinite only if the exact one is larger than all doubles, so bounds on the exact
result that are doubles themselves are bounds on what is returned. -/

namespace WitnessSearch.FloatRounding

open Float.Model UnpackedFloat

/-- The finite values of doubles that are not negative. -/
def Representable (v : ℚ) : Prop :=
  ∃ m e, m < 2 ^ 53 ∧ -1074 ≤ e ∧ e ≤ topExponent ∧ v = scaled m e

/-- A natural number of up to 53 bits is a double. -/
theorem representable_natCast {n : ℕ} (h : n < 2 ^ 53) : Representable n :=
  ⟨n, 0, h, by decide, by decide, by rw [scaled, zpow_zero, mul_one]⟩

/-- Powers of two are doubles, up to the largest one needed here. -/
theorem representable_two_pow {k : ℕ} (h : k ≤ 971) : Representable (2 ^ k) :=
  ⟨1, k, by decide, by omega, by unfold topExponent; omega, by rw [scaled, zpow_natCast]; simp⟩

/-- The value of a double is a number that doubles have. -/
theorem HasValue.representable {x : Float} {v : ℚ} (h : HasValue x v) : Representable v := by
  obtain ⟨_, -, hParts⟩ := h
  cases hParts with
  | zero => exact representable_natCast (n := 0) (by decide)
  | finite _ hCanonical hTop => exact ⟨_, _, hCanonical.bits, hCanonical.least, hTop, rfl⟩

/-- A double is what a number is rounded to. -/
inductive Approximates (z : Float) (x : ℚ) : Prop
  | value {v : ℚ} (hValue : HasValue z v) (hNear : Near x v)
  | overflow (hInfinite : z.toModel.unpack = .infinity .positive)
      (hLarge : ∀ v, Representable v → v < x)

section Results

variable {z : Float} {x : ℚ}

theorem near_refl (x : ℚ) : Near x x :=
  ⟨fun _ _ h => h, fun _ _ h => h⟩

/-- One is a double, so nothing from one on is rounded to less. -/
theorem Near.one_le {v : ℚ} (h : Near x v) (hx : 1 ≤ x) : 1 ≤ v := by
  have hOne : scaled 1 0 = 1 := by norm_num [scaled]
  rw [← hOne] at hx ⊢
  exact h.not_below (by decide) (by decide) hx

/-- A double packed from parts has the number that the parts measure. -/
theorem hasValue_of_pack {parts : UnpackedFloat} {v : ℚ} (hz : z.toModel = .pack parts)
    (h : Measures parts v) : HasValue z v := by
  refine ⟨parts, ?_, h⟩
  rw [hz]
  change UnpackedFloat.unpack Format.binary64 (UnpackedFloat.pack Format.binary64 parts) = parts
  cases h with
  | zero sign => exact unpack_pack (m := 0) (e := -1074) sign ⟨by decide, le_rfl, Or.inr rfl⟩ (by decide)
  | finite hPos hCanonical hTop =>
      rw [← magnitude_of_pos]
      exact unpack_pack _ hCanonical hTop

/-- A double packed from a significand near to a number approximates the number. -/
theorem approximates_of_pack {m : ℕ} {e : ℤ} (hz : z.toModel = .pack (magnitude .positive m e))
    (h : Canonical m e) (hNear : Near x (scaled m e)) : Approximates z x := by
  by_cases hTop : e ≤ topExponent
  · exact .value (hasValue_of_pack hz (measures_magnitude h hTop)) hNear
  · refine .overflow ?_ ?_
    · rw [hz]
      exact unpack_pack_overflow _ h (lt_of_not_ge hTop)
    · rintro v ⟨n, f, hBits, hLeast, hFits, rfl⟩
      by_contra hNot
      have hAbove := hNear.not_above hBits.le hLeast (not_lt.mp hNot)
      have hFull : 2 ^ 52 ≤ m := h.full.resolve_right (by unfold topExponent at hTop; omega)
      have hEdge : scaled n f < scaled (2 ^ 52) (topExponent + 1) := by
        refine lt_of_le_of_lt (b := scaled (2 ^ 53 - 1) topExponent) ?_ ?_
        · refine (scaled_le_scaled (Nat.le_sub_one_of_lt hBits) f).trans ?_
          unfold scaled
          gcongr
          exact one_le_two
        · rw [scaled_lt_iff ⟨by decide, by decide, Or.inl (by decide)⟩
            ⟨by decide, by decide, Or.inl le_rfl⟩]
          exact Or.inl (lt_add_one _)
      have hHigh : scaled (2 ^ 52) (topExponent + 1) ≤ scaled m e := by
        refine (scaled_le_scaled hFull _).trans ?_
        unfold scaled
        gcongr
        · exact one_le_two
        · omega
      exact (hEdge.trans_le hHigh).not_ge hAbove

/-- A result is bounded by doubles as the exact one is. -/
theorem Approximates.exists_value (h : Approximates z x) {b : ℚ} (hb : Representable b)
    (hx : x ≤ b) : ∃ v, HasValue z v ∧ v ≤ b ∧ ∀ a, Representable a → a ≤ x → a ≤ v := by
  cases h with
  | value hValue hNear =>
      refine ⟨_, hValue, ?_, ?_⟩
      · obtain ⟨m, e, hBits, hLeast, -, rfl⟩ := hb
        exact hNear.not_above hBits.le hLeast hx
      · rintro a ⟨m, e, hBits, hLeast, -, rfl⟩ ha
        exact hNear.not_below hBits.le hLeast ha
  | overflow _ hLarge => exact absurd hx (hLarge b hb).not_ge

end Results

section Rounding

/-- Doubling a number moves its highest bit up by one. -/
theorem log2_mul_two_pow {m : ℕ} (h : 0 < m) (k : ℕ) : (m * 2 ^ k).log2 = m.log2 + k := by
  have hPower : 0 < 2 ^ k := Nat.two_pow_pos k
  rw [Nat.log2_eq_iff (Nat.mul_pos h hPower).ne', pow_add, add_right_comm, pow_add]
  exact ⟨Nat.mul_le_mul_right _ (Nat.log2_self_le h.ne'),
    Nat.mul_lt_mul_of_pos_right Nat.lt_log2_self hPower⟩

/-- Rounding of a number that is given by an integer and an exponent. -/
theorem round_near (sign : Sign) {m : ℕ} (e : ℤ) (h : 0 < m) :
    ∃ r t, UnpackedFloat.round Format.binary64 sign m e = magnitude sign r t ∧
      Canonical r t ∧ Near (scaled m e) (scaled r t) := by
  obtain ⟨k, hk⟩ : ∃ k, k = (e - max (m.log2 + e - 52) (-1074)).toNat := ⟨_, rfl⟩
  have hRound : UnpackedFloat.round Format.binary64 sign m e =
      roundWithAccuracy Format.binary64 sign (m * 2 ^ k) (e - k) .exact := by
    rw [← Nat.shiftLeft_eq, hk, ← targetExponent_eq]
    rfl
  have hLog : (m * 2 ^ k).log2 = m.log2 + k := log2_mul_two_pow h k
  have hExponent : e - k ≤ max (((m * 2 ^ k).log2 : ℕ) + (e - k) - 52) (-1074) := by
    rw [hLog]
    push_cast
    omega
  obtain ⟨r, t, hResult, hCanonical, hNear⟩ :=
    roundWithAccuracy_near sign (standsFor_exact (m * 2 ^ k)) hExponent
  refine ⟨r, t, hRound.trans hResult, hCanonical, ?_⟩
  have hScaled := scaled_mul_pow m (e - k) k
  rw [sub_add_cancel] at hScaled
  rwa [← hScaled]

/-- A natural number times a power of two, stored as a double. -/
theorem approximates_of_normalize {z : Float} (n : ℕ) (e : ℤ)
    (hz : z.toModel = .pack (UnpackedFloat.normalize Format.binary64 n e .positive)) :
    Approximates z (scaled n e) := by
  rcases Nat.eq_zero_or_pos n with rfl | hPos
  · have hZero : scaled 0 e = 0 := by rw [scaled, Nat.cast_zero, zero_mul]
    rw [hZero]
    exact .value (hasValue_of_pack hz (.zero .positive)) (near_refl 0)
  · have hCompare : compare (n : ℤ) 0 = .gt := Int.compare_eq_gt.mpr (by omega)
    unfold UnpackedFloat.normalize at hz
    rw [hCompare] at hz
    obtain ⟨r, t, hRound, hCanonical, hNear⟩ := round_near .positive e hPos
    exact approximates_of_pack (hz.trans (congrArg _ hRound)) hCanonical hNear

end Rounding

section Operations

variable {x y : Float} {v w : ℚ}

/-- Writing a number with a smaller exponent does not change it. -/
theorem scaled_decreaseExponent (m : ℕ) {e t : ℤ} (h : t ≤ e) :
    scaled (decreaseExponent m e t).1 t = scaled m e := by
  obtain ⟨k, rfl⟩ := Int.le.dest h
  change scaled (m <<< (t + k - t).toNat) t = _
  rw [add_sub_cancel_left, Int.toNat_natCast, Nat.shiftLeft_eq, scaled_mul_pow]

/-- The sum of two doubles is the exact sum, rounded once. -/
theorem add_approximates (hx : HasValue x v) (hy : HasValue y w) : Approximates (x + y) (v + w) := by
  obtain ⟨a, hA, hx⟩ := hx
  obtain ⟨b, hB, hy⟩ := hy
  have hSum : (x + y).toModel = .pack (UnpackedFloat.add Format.binary64 a b) := by
    rw [← hA, ← hB]
    rfl
  cases hx with
  | zero s =>
      rw [zero_add]
      cases hy with
      | zero t => cases s <;> cases t <;> exact .value (hasValue_of_pack hSum (.zero _)) (near_refl 0)
      | finite hPos hCanonical hTop =>
          exact .value (hasValue_of_pack hSum (.finite hPos hCanonical hTop)) (near_refl _)
  | @finite m e hPos hCanonical hTop =>
      cases hy with
      | zero t =>
          rw [add_zero]
          exact .value (hasValue_of_pack hSum (.finite hPos hCanonical hTop)) (near_refl _)
      | @finite n f hPos' hCanonical' hTop' =>
          rw [← scaled_decreaseExponent m (min_le_left e f),
            ← scaled_decreaseExponent n (min_le_right e f), ← scaled_add]
          refine approximates_of_normalize _ _ (hSum.trans (congrArg Float.Model.pack ?_))
          rw [Nat.cast_add]
          rfl

/-- A difference is only looked at where it is not negative. -/
theorem sub_approximates (hx : HasValue x v) (hy : HasValue y w) (h : w ≤ v) :
    Approximates (x - y) (v - w) := by
  obtain ⟨a, hA, hx⟩ := hx
  obtain ⟨b, hB, hy⟩ := hy
  have hDifference : (x - y).toModel = .pack (UnpackedFloat.sub Format.binary64 a b) := by
    rw [← hA, ← hB]
    rfl
  cases hx with
  | zero s =>
      cases hy with
      | zero t =>
          rw [sub_zero]
          cases s <;> cases t <;> exact .value (hasValue_of_pack hDifference (.zero _)) (near_refl 0)
      | finite hPos => exact absurd h (scaled_pos hPos _).not_ge
  | @finite m e hPos hCanonical hTop =>
      cases hy with
      | zero t =>
          rw [sub_zero]
          exact .value (hasValue_of_pack hDifference (.finite hPos hCanonical hTop)) (near_refl _)
      | @finite n f hPos' hCanonical' hTop' =>
          rw [← scaled_decreaseExponent m (min_le_left e f),
            ← scaled_decreaseExponent n (min_le_right e f)] at h ⊢
          have hLess := le_of_scaled_le h
          rw [← scaled_sub hLess]
          refine approximates_of_normalize _ _ (hDifference.trans (congrArg Float.Model.pack ?_))
          rw [Nat.cast_sub hLess]
          rfl

/-- The product of two doubles is the exact product, rounded once. -/
theorem mul_approximates (hx : HasValue x v) (hy : HasValue y w) : Approximates (x * y) (v * w) := by
  obtain ⟨a, hA, hx⟩ := hx
  obtain ⟨b, hB, hy⟩ := hy
  have hProduct : (x * y).toModel = .pack (UnpackedFloat.mul Format.binary64 a b) := by
    rw [← hA, ← hB]
    rfl
  cases hx with
  | zero s =>
      rw [zero_mul]
      cases hy <;> exact .value (hasValue_of_pack hProduct (.zero _)) (near_refl 0)
  | @finite m e hPos hCanonical hTop =>
      cases hy with
      | zero t =>
          rw [mul_zero]
          exact .value (hasValue_of_pack hProduct (.zero _)) (near_refl 0)
      | @finite n f hPos' hCanonical' hTop' =>
          have hExponent : e + f ≤ max (((m * n).log2 : ℕ) + (e + f) - 52) (-1074) := by
            have hProductPos := Nat.mul_pos hPos hPos'
            rcases hCanonical.full with hFull | hLeast
            · have := (Nat.le_log2 hProductPos.ne').mpr (hFull.trans (Nat.le_mul_of_pos_right m hPos'))
              omega
            · rcases hCanonical'.full with hFull' | hLeast'
              · have := (Nat.le_log2 hProductPos.ne').mpr
                  (hFull'.trans (Nat.le_mul_of_pos_left n hPos))
                omega
              · omega
          obtain ⟨r, t, hRound, hResult, hNear⟩ :=
            roundWithAccuracy_near .positive (standsFor_exact (m * n)) hExponent
          rw [← scaled_mul]
          exact approximates_of_pack (hProduct.trans (congrArg Float.Model.pack hRound)) hResult hNear

/-- A quotient of natural numbers with what the remainder says about its accuracy. -/
theorem standsFor_quotient (m : ℕ) {n : ℕ} (h : 0 < n) :
    StandsFor (.ofMantissaAndAccuracy (m / n) (accuracyOfFraction (m % n) n)) (m / n : ℚ) := by
  have hCast : (0 : ℚ) < n := by exact_mod_cast h
  have hWhole : (m : ℚ) = n * (m / n : ℕ) + (m % n : ℕ) := by exact_mod_cast (Nat.div_add_mod m n).symm
  have hRest : ((m % n : ℕ) : ℚ) < n := by exact_mod_cast Nat.mod_lt m h
  have hNonneg : (0 : ℚ) ≤ (m % n : ℕ) := Nat.cast_nonneg _
  have hMantissa : (ExtendedMantissa.ofMantissaAndAccuracy (m / n)
      (accuracyOfFraction (m % n) n)).mantissa = m / n := mantissa_ofMantissaAndAccuracy _ _
  have hExact : (m / n : ℚ) = (m / n : ℕ) ↔ m % n = 0 := by
    rw [div_eq_iff hCast.ne']
    constructor
    · intro hEqual
      have hNone : ((m % n : ℕ) : ℚ) = 0 := by linarith
      exact_mod_cast hNone
    · intro hNone
      rw [hNone, Nat.cast_zero] at hWhole
      linarith
  refine ⟨?_, ?_, ?_⟩
  · rw [hMantissa, le_div_iff₀ hCast]
    linarith
  · rw [hMantissa, div_lt_iff₀ hCast]
    linarith
  · rw [hMantissa, hExact]
    unfold accuracyOfFraction
    by_cases hZero : m % n = 0
    · rw [if_pos hZero]
      simp [hZero, ExtendedMantissa.ofMantissaAndAccuracy]
    · rw [if_neg hZero]
      cases compare (2 * (m % n)) n <;> simp [hZero, ExtendedMantissa.ofMantissaAndAccuracy]

/-- Before it is rounded a quotient of finite doubles is worked out to the whole precision. The
dividend is shifted until the quotient has the bits of a full significand, unless the exponent is
the least one. -/
theorem div_finite (m n : ℕ) (e f : ℤ) (hm : 0 < m) (hn : 0 < n) :
    ∃ (k : ℕ) (t : ℤ), k + t = e - f ∧
      t ≤ max (((m * 2 ^ k / n).log2 : ℕ) + t - 52) (-1074) ∧
      UnpackedFloat.div Format.binary64 (.finite .positive m e hm) (.finite .positive n f hn) =
        roundWithAccuracy Format.binary64 .positive (m * 2 ^ k / n) t
          (accuracyOfFraction (m * 2 ^ k % n) n) := by
  have hTarget : Format.binary64.targetExponent (totalExponent m e - totalExponent n f) =
      max (m.log2 + e - (n.log2 + f) - 53) (-1074) := by
    change max ((m.log2 : ℤ) + 1 + e - (n.log2 + 1 + f) - 53) (-1074) = _
    omega
  obtain ⟨t, ht⟩ : ∃ t, t = min (e - f)
      (Format.binary64.targetExponent (totalExponent m e - totalExponent n f)) := ⟨_, rfl⟩
  obtain ⟨k, hk⟩ : ∃ k, k = (e - f - t).toNat := ⟨_, rfl⟩
  have hDiv : UnpackedFloat.div Format.binary64 (.finite .positive m e hm) (.finite .positive n f hn) =
      roundWithAccuracy Format.binary64 .positive (m * 2 ^ k / n) t
        (accuracyOfFraction (m * 2 ^ k % n) n) := by
    rw [← Nat.shiftLeft_eq, hk, ht]
    rfl
  rw [hTarget] at ht
  refine ⟨k, t, by omega, ?_, hDiv⟩
  by_cases hLeast : t ≤ -1074
  · omega
  have hBits : 2 ^ 52 ≤ m * 2 ^ k / n := by
    rw [Nat.le_div_iff_mul_le hn]
    calc 2 ^ 52 * n ≤ 2 ^ 52 * 2 ^ (n.log2 + 1) :=
          Nat.mul_le_mul_left _ Nat.lt_log2_self.le
      _ = 2 ^ (52 + (n.log2 + 1)) := (pow_add 2 52 _).symm
      _ ≤ 2 ^ (m.log2 + k) := Nat.pow_le_pow_right two_pos (by omega)
      _ = 2 ^ m.log2 * 2 ^ k := pow_add 2 _ _
      _ ≤ m * 2 ^ k := Nat.mul_le_mul_right _ (Nat.log2_self_le hm.ne')
  have hLog := (Nat.le_log2 ((Nat.two_pow_pos 52).trans_le hBits).ne').mpr hBits
  omega

/-- The quotient of two doubles is the exact quotient, rounded once. -/
theorem div_approximates (hx : HasValue x v) (hy : HasValue y w) (h : 0 < w) :
    Approximates (x / y) (v / w) := by
  obtain ⟨a, hA, hx⟩ := hx
  obtain ⟨b, hB, hy⟩ := hy
  have hQuotient : (x / y).toModel = .pack (UnpackedFloat.div Format.binary64 a b) := by
    rw [← hA, ← hB]
    rfl
  cases hy with
  | zero => exact absurd h (lt_irrefl 0)
  | @finite n f hPos' hCanonical' hTop' =>
      cases hx with
      | zero s =>
          rw [zero_div]
          exact .value (hasValue_of_pack hQuotient (.zero _)) (near_refl 0)
      | @finite m e hPos hCanonical hTop =>
          obtain ⟨k, t, hShift, hExponent, hDiv⟩ := div_finite m n e f hPos hPos'
          obtain ⟨r, t', hRound, hResult, hNear⟩ :=
            roundWithAccuracy_near .positive (standsFor_quotient (m * 2 ^ k) hPos') hExponent
          have hValue : scaled m e / scaled n f = (m * 2 ^ k : ℕ) / n * 2 ^ t := by
            rw [scaled, scaled, mul_div_mul_comm, ← zpow_sub₀ two_ne_zero, ← hShift,
              zpow_add₀ two_ne_zero, zpow_natCast]
            push_cast
            ring
          rw [hValue]
          exact approximates_of_pack (hQuotient.trans (congrArg Float.Model.pack (hDiv.trans hRound)))
            hResult hNear

end Operations

section Counts

theorem ofNat_small {n : ℕ} (h : n < 2 ^ 53) :
    Float.ofNat n = n.toUInt64.toFloat * Float.ofBits 0x3ff0000000000000 := by
  change Float.ofScientific n false 0 = _
  unfold Float.ofScientific
  rw [dif_pos ⟨h, by decide⟩]
  rfl

/-- A larger count is given more bits than fit and rounded. -/
theorem ofNat_large {n : ℕ} (h : 2 ^ 53 ≤ n) :
    (Float.ofNat n).toModel =
      .pack (roundWithAccuracy Format.binary64 .positive ((n <<< 53) * 1) (-53 + 0) .exact) := by
  have hPos : 0 < n := by omega
  have hLow : ¬(0 : ℤ) > 2 ^ 11 := by decide
  have hHigh : ¬(0 : ℤ) < -((2 ^ 11 : ℤ) + n.log2) := by omega
  change (Float.ofScientific n false 0).toModel = _
  unfold Float.ofScientific
  rw [dif_neg (by omega)]
  change Float.Model.pack (UnpackedFloat.ofScientific Format.binary64 n 0) = _
  unfold UnpackedFloat.ofScientific
  rw [dif_neg hPos.ne', if_neg hLow, if_neg hHigh, if_pos le_rfl]
  congr 1

/-- The double of a word is the word, rounded once. -/
theorem toFloat_approximates (word : UInt64) : Approximates word.toFloat word.toNat := by
  have hStored : word.toFloat.toModel =
      .pack (UnpackedFloat.normalize Format.binary64 word.toNat 0 .positive) := rfl
  have hExact := approximates_of_normalize word.toNat 0 hStored
  rwa [scaled, zpow_zero, mul_one] at hExact

/-- The double of a natural number is the number, rounded once. -/
theorem ofNat_approximates (n : ℕ) : Approximates (Float.ofNat n) n := by
  rcases Nat.lt_or_ge n (2 ^ 53) with hSmall | hLarge
  · have hExact := toFloat_approximates n.toUInt64
    rw [UInt64.toNat_ofNat_of_lt' (hSmall.trans (by decide))] at hExact
    obtain ⟨v, hValue, hUpper, hLower⟩ := hExact.exists_value (representable_natCast hSmall) le_rfl
    have hSame : v = n := le_antisymm hUpper (hLower _ (representable_natCast hSmall) le_rfl)
    rw [hSame] at hValue
    have hProduct := mul_approximates hValue hasValue_one
    rw [mul_one] at hProduct
    rw [ofNat_small hSmall]
    exact hProduct
  · have hPos : 0 < n := by omega
    have hStored := ofNat_large hLarge
    obtain ⟨m, hm⟩ : ∃ m, m = (n <<< 53) * 1 := ⟨_, rfl⟩
    rw [← hm] at hStored
    rw [mul_one, Nat.shiftLeft_eq] at hm
    have hExponent : (-53 + 0 : ℤ) ≤ max ((m.log2 : ℤ) + (-53 + 0) - 52) (-1074) := by
      rw [hm, log2_mul_two_pow hPos]
      push_cast
      omega
    obtain ⟨r, t, hRound, hResult, hNear⟩ :=
      roundWithAccuracy_near .positive (standsFor_exact m) hExponent
    have hScaled : (m : ℚ) * 2 ^ (-53 + 0 : ℤ) = n := by
      change scaled m _ = n
      rw [hm, scaled_mul_pow]
      norm_num [scaled]
    rw [hScaled] at hNear
    exact approximates_of_pack (hStored.trans (congrArg Float.Model.pack hRound)) hResult hNear

end Counts

section Nonnegative

/-- A double is a number that is not negative. It may be infinite. -/
def Nonnegative (x : Float) : Prop :=
  (∃ v, HasValue x v) ∨ x.toModel.unpack = .infinity .positive

variable {x y : Float} {v w : ℚ}

/-- A double with a value is not negative, since no other double is given one. -/
theorem HasValue.nonnegative (h : HasValue x v) : Nonnegative x :=
  Or.inl ⟨v, h⟩

/-- What is rounded from a number that is not negative is not negative itself. -/
theorem Approximates.nonnegative (h : Approximates x v) : Nonnegative x := by
  cases h with
  | value hValue => exact hValue.nonnegative
  | overflow hInfinite => exact Or.inr hInfinite

theorem Nonnegative.isNaN (h : Nonnegative x) : x.isNaN = false := by
  rcases h with ⟨v, hValue⟩ | hInfinite
  · exact hValue.isNaN
  · change x.toModel.unpack.isNaN = false
    rw [hInfinite]
    rfl

theorem nonnegative_of_infinity (h : x.toModel = .pack (.infinity .positive)) : Nonnegative x := by
  right
  rw [h]
  rfl

/-- Sums of doubles that are not negative stay so, also where they become infinite. -/
theorem Nonnegative.add (hx : Nonnegative x) (hy : Nonnegative y) : Nonnegative (x + y) := by
  have hSum : (x + y).toModel =
      .pack (UnpackedFloat.add Format.binary64 x.toModel.unpack y.toModel.unpack) := rfl
  rcases hx with ⟨v, hx⟩ | hx
  · rcases hy with ⟨w, hy⟩ | hy
    · exact (add_approximates hx hy).nonnegative
    · obtain ⟨a, hA, hx⟩ := hx
      rw [hA, hy] at hSum
      cases hx <;> exact nonnegative_of_infinity hSum
  · rw [hx] at hSum
    rcases hy with ⟨w, b, hB, hy⟩ | hy
    · rw [hB] at hSum
      cases hy <;> exact nonnegative_of_infinity hSum
    · rw [hy] at hSum
      exact nonnegative_of_infinity hSum

/-- A number divided by a finite one that is not zero. -/
theorem Nonnegative.div (hx : Nonnegative x) (hy : HasValue y w) (h : 0 < w) :
    Nonnegative (x / y) := by
  rcases hx with ⟨v, hx⟩ | hx
  · exact (div_approximates hx hy h).nonnegative
  · have hQuotient : (x / y).toModel =
        .pack (UnpackedFloat.div Format.binary64 x.toModel.unpack y.toModel.unpack) := rfl
    obtain ⟨b, hB, hy⟩ := hy
    rw [hx, hB] at hQuotient
    cases hy with
    | zero => exact absurd h (lt_irrefl 0)
    | finite => exact nonnegative_of_infinity hQuotient

/-- A difference of finite doubles that is not negative is finite. -/
theorem exists_value_sub (hx : HasValue x v) (hy : HasValue y w) (h : ¬x < y) :
    ∃ u, HasValue (x - y) u := by
  rw [hx.lt_iff hy, not_lt] at h
  obtain ⟨u, hValue, -⟩ := (sub_approximates hx hy h).exists_value hx.representable
    (sub_le_self v hy.nonneg)
  exact ⟨u, hValue⟩

/-- A count that is not too large for a double. -/
theorem exists_value_ofNat {n : ℕ} (hPos : 0 < n) (hBound : n ≤ 2 ^ 64) :
    ∃ w, HasValue (Float.ofNat n) w ∧ 0 < w := by
  have hUpper : (n : ℚ) ≤ 2 ^ 64 := by exact_mod_cast hBound
  obtain ⟨w, hValue, -, hLower⟩ :=
    (ofNat_approximates n).exists_value (representable_two_pow (by decide)) hUpper
  refine ⟨w, hValue, one_pos.trans_le ?_⟩
  have hOne := hLower _ (representable_natCast (n := 1) (by decide)) (by exact_mod_cast hPos)
  simpa using hOne

/-- One over a count is a probability. -/
theorem inverse_count {n : ℕ} (h : 0 < n) :
    ∃ v, HasValue (1.0 / Float.ofNat n) v ∧ v ≤ 1 := by
  have hCount : (1 : ℚ) ≤ n := by exact_mod_cast h
  have hOne : Representable 1 := by simpa using representable_natCast (n := 1) (by decide)
  cases ofNat_approximates n with
  | @value w hValue hNear =>
      have hw : 1 ≤ w := hNear.one_le hCount
      have hUpper : 1 / w ≤ 1 := (div_le_one (one_pos.trans_le hw)).mpr hw
      obtain ⟨v, hv, hBound, -⟩ :=
        (div_approximates hasValue_one hValue (one_pos.trans_le hw)).exists_value hOne hUpper
      exact ⟨v, hv, hBound⟩
  | overflow hInfinite =>
      have hQuotient : (1.0 / Float.ofNat n).toModel = .pack (UnpackedFloat.div Format.binary64
          (1.0 : Float).toModel.unpack (Float.ofNat n).toModel.unpack) := rfl
      rw [hInfinite] at hQuotient
      exact ⟨0, hasValue_of_pack hQuotient (.zero _), zero_le_one⟩

end Nonnegative

end WitnessSearch.FloatRounding
