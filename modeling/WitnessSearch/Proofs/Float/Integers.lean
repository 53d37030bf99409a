import WitnessSearch.Proofs.Float.Arithmetic

/-! Doubles made from integers, and doubles of limited size. The double nearest to an integer is
always a number. Sums of doubles that are not too large stay finite, and so do quotients by what is
larger. -/

namespace WitnessSearch.FloatRounding

open Float.Model UnpackedFloat

variable {x y : Float} {v w : ℚ}

section Negation

/-- Taking the negative of a double changes its sign and nothing else. -/
theorem unpack_neg (x : Float) : (-x).toModel.unpack =
    UnpackedFloat.unpack Format.binary64
      (UnpackedFloat.pack Format.binary64 x.toModel.unpack.neg) :=
  rfl

/-- The negative of a double with a value is finite. -/
theorem unpack_neg_of_value (h : HasValue x v) :
    ∃ sign m e, (-x).toModel.unpack = magnitude sign m e := by
  obtain ⟨parts, hParts, hMeasures⟩ := h
  have hNegated := unpack_neg x
  rw [hParts] at hNegated
  cases hMeasures with
  | zero sign =>
      exact ⟨-sign, 0, -1074, hNegated.trans
        (unpack_pack (m := 0) (e := -1074) (-sign) ⟨by decide, le_rfl, Or.inr rfl⟩ (by decide))⟩
  | @finite m e hPos hCanonical hTop =>
      refine ⟨.negative, m, e, hNegated.trans ?_⟩
      have hStored := unpack_pack .negative hCanonical hTop
      rwa [magnitude_of_pos _ _ hPos] at hStored ⊢

theorem isNaN_magnitude (sign : Sign) (m : ℕ) (e : ℤ) : (magnitude sign m e).isNaN = false := by
  rcases Nat.eq_zero_or_pos m with rfl | hPos
  · rfl
  · rw [magnitude_of_pos _ _ hPos]
    rfl

theorem Nonnegative.isNaN_neg (h : Nonnegative x) : (-x).isNaN = false := by
  change (-x).toModel.unpack.isNaN = false
  rcases h with ⟨v, hValue⟩ | hInfinite
  · obtain ⟨sign, m, e, hParts⟩ := unpack_neg_of_value hValue
    rw [hParts]
    exact isNaN_magnitude sign m e
  · rw [unpack_neg, hInfinite]
    rfl

/-- An integer never becomes something that is not a number. -/
theorem isNaN_ofInt (value : ℤ) : (Float.ofInt value).isNaN = false := by
  cases value with
  | ofNat n => exact (ofNat_approximates n).nonnegative.isNaN
  | negSucc n => exact (ofNat_approximates (n + 1)).nonnegative.isNaN_neg

end Negation

theorem representable_one : Representable 1 := by
  simpa using representable_natCast (n := 1) (by decide)

/-- A double that is neither negative nor larger than a power of two. -/
def Within (k : ℕ) (x : Float) : Prop :=
  ∃ v, HasValue x v ∧ v ≤ 2 ^ k

theorem within_zero (k : ℕ) : Within k 0.0 :=
  ⟨0, hasValue_zero, by positivity⟩

theorem Within.mono {j k : ℕ} (h : Within j x) (hLe : j ≤ k) : Within k x := by
  obtain ⟨v, hValue, hBound⟩ := h
  exact ⟨v, hValue, hBound.trans (pow_le_pow_right₀ one_le_two hLe)⟩

/-- An integer that is not negative and not too large has a double with a value within the same
limit. -/
theorem exists_value_ofInt {value : ℤ} {k : ℕ} (hNonneg : 0 ≤ value) (hBound : value ≤ 2 ^ k)
    (hk : k ≤ 971) :
    ∃ v, HasValue (Float.ofInt value) v ∧ v ≤ 2 ^ k ∧ (1 ≤ value → 1 ≤ v) := by
  obtain ⟨n, rfl⟩ := Int.eq_ofNat_of_zero_le hNonneg
  have hUpper : (n : ℚ) ≤ 2 ^ k := by exact_mod_cast hBound
  obtain ⟨v, hValue, hLe, hLeast⟩ :=
    (ofNat_approximates n).exists_value (representable_two_pow hk) hUpper
  exact ⟨v, hValue, hLe, fun hOne => hLeast 1 representable_one (by exact_mod_cast hOne)⟩

/-- A sum that another term of limited size is added to. -/
theorem Within.add {j k : ℕ} (hx : Within j x) (hy : Within k y) (hLe : k ≤ j) (hj : j < 971) :
    Within (j + 1) (x + y) := by
  obtain ⟨v, hv, hLeft⟩ := hx
  obtain ⟨w, hw, hRight⟩ := hy.mono hLe
  have hSum : v + w ≤ 2 ^ (j + 1) := by
    rw [pow_succ]
    linarith
  obtain ⟨u, hu, hBound, -⟩ :=
    (add_approximates hv hw).exists_value (representable_two_pow hj) hSum
  exact ⟨u, hu, hBound⟩

/-- One and a part that grows from nothing towards one. -/
theorem exists_value_share {k : ℕ} (hx : Within k x) (hk : k < 971) :
    ∃ v, HasValue (1.0 + x / (x + 1.0)) v ∧ 1 ≤ v ∧ v ≤ 2 := by
  obtain ⟨v, hv, hBound⟩ := hx
  have hOne := representable_one
  have hTwo : Representable 2 := by simpa using representable_natCast (n := 2) (by decide)
  have hRoom : v + 1 ≤ 2 ^ (k + 1) := by
    have hLeast : (1 : ℚ) ≤ 2 ^ k := one_le_pow₀ one_le_two
    rw [pow_succ]
    linarith
  obtain ⟨s, hs, -, hAbove⟩ :=
    (add_approximates hv hasValue_one).exists_value (representable_two_pow hk) hRoom
  have hLarger : v ≤ s := hAbove v hv.representable (by linarith)
  have hPositive : 0 < s := one_pos.trans_le (hAbove 1 hOne (by linarith [hv.nonneg]))
  obtain ⟨q, hq, hPart, -⟩ := (div_approximates hv hs hPositive).exists_value hOne
    ((div_le_one hPositive).mpr hLarger)
  obtain ⟨r, hr, hAtMost, hAtLeast⟩ :=
    (add_approximates hasValue_one hq).exists_value hTwo (by linarith)
  exact ⟨r, hr, hAtLeast 1 hOne (by linarith [hq.nonneg]), hAtMost⟩

section Gauges

variable {k : ℕ} {met : Prop}

/-- A double that is zero if a condition is met and at least one otherwise, and that is not larger
than a power of two. -/
def Gauges (k : ℕ) (met : Prop) (x : Float) : Prop :=
  ∃ v, HasValue x v ∧ v ≤ 2 ^ k ∧ (met → v = 0) ∧ (¬met → 1 ≤ v)

/-- A distance that gauges a condition is within its limit. -/
theorem Gauges.within (h : Gauges k met x) : Within k x := by
  obtain ⟨v, hValue, hBound, -⟩ := h
  exact ⟨v, hValue, hBound⟩

/-- Zero gauges a condition that is met. -/
theorem gauges_zero (k : ℕ) (h : met) : Gauges k met 0.0 :=
  ⟨0, hasValue_zero, by positivity, fun _ => rfl, fun hNot => absurd h hNot⟩

/-- A positive integer gauges a condition that is not met. -/
theorem gauges_ofInt {value : ℤ} (hNot : ¬met) (hLeast : 1 ≤ value) (hBound : value ≤ 2 ^ k)
    (hk : k ≤ 971) : Gauges k met (Float.ofInt value) := by
  obtain ⟨v, hValue, hLe, hOne⟩ := exists_value_ofInt (by omega) hBound hk
  exact ⟨v, hValue, hLe, fun hMet => absurd hMet hNot, fun _ => hOne hLeast⟩

/-- Conditions that hold together are gauged by the same distances. -/
theorem Gauges.congr {met' : Prop} (h : Gauges k met x) (hSame : met ↔ met') :
    Gauges k met' x :=
  propext hSame ▸ h

theorem Gauges.mono {j : ℕ} (h : Gauges j met x) (hLe : j ≤ k) : Gauges k met x := by
  obtain ⟨v, hValue, hBound, hParts⟩ := h
  exact ⟨v, hValue, hBound.trans (pow_le_pow_right₀ one_le_two hLe), hParts⟩

/-- A distance that gauges a condition is positive exactly if the condition is not met. -/
theorem Gauges.pos_iff (h : Gauges k met x) : 0.0 < x ↔ ¬met := by
  obtain ⟨v, hValue, -, hZero, hOne⟩ := h
  rw [hasValue_zero.lt_iff hValue]
  refine ⟨fun hPos hMet => ?_, fun hNot => zero_lt_one.trans_le (hOne hNot)⟩
  rw [hZero hMet] at hPos
  exact lt_irrefl 0 hPos

/-- The sum of two such doubles tells whether both conditions are met. Rounding does not bring a sum
that is at least one below one. -/
theorem Gauges.add {j : ℕ} {met' : Prop} (hx : Gauges j met x) (hy : Gauges k met' y)
    (hLe : k ≤ j) (hj : j < 971) : Gauges (j + 1) (met ∧ met') (x + y) := by
  obtain ⟨v, hv, hLeft, hZero, hOne⟩ := hx
  obtain ⟨w, hw, hRight, hZero', hOne'⟩ := hy.mono hLe
  have hv0 := hv.nonneg
  have hw0 := hw.nonneg
  by_cases hMet : met ∧ met'
  · have hNone : v + w ≤ 0 := by rw [hZero hMet.1, hZero' hMet.2, add_zero]
    have hLeast : Representable 0 := by simpa using representable_natCast (n := 0) (by decide)
    obtain ⟨u, hu, hBound, -⟩ := (add_approximates hv hw).exists_value hLeast hNone
    have hSame : u = 0 := le_antisymm hBound hu.nonneg
    exact ⟨u, hu, hSame ▸ by positivity, fun _ => hSame, fun hNot => absurd hMet hNot⟩
  · have hSome : 1 ≤ v + w := by
      rcases not_and_or.mp hMet with hNot | hNot
      · exact (hOne hNot).trans (le_add_of_nonneg_right hw0)
      · exact (hOne' hNot).trans (le_add_of_nonneg_left hv0)
    have hSum : v + w ≤ 2 ^ (j + 1) := by
      rw [pow_succ]
      linarith
    obtain ⟨u, hu, hBound, hAtLeast⟩ :=
      (add_approximates hv hw).exists_value (representable_two_pow hj) hSum
    exact ⟨u, hu, hBound, fun hBoth => absurd hBoth hMet,
      fun _ => hAtLeast 1 representable_one hSome⟩

end Gauges

end WitnessSearch.FloatRounding
