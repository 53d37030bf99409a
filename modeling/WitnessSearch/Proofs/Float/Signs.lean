import WitnessSearch.Proofs.Float.Arithmetic

/-! Doubles that are not below zero: the numbers that are not negative, and what is not a number.
They stay so when they are added or divided by a count, whether or not the outcome is a number. -/

namespace WitnessSearch.FloatRounding

open Float.Model UnpackedFloat

variable {x y : Float}

theorem compare_notANumber_left (b : UnpackedFloat) : notANumber.compare b = none := by
  cases b <;> rfl

/-- All doubles that are not numbers have the same parts. -/
theorem unpack_of_isNaN (h : x.isNaN = true) : x.toModel.unpack = .notANumber := by
  change x.toModel.unpack.isNaN = true at h
  cases hParts : x.toModel.unpack with
  | notANumber => rfl
  | _ => rw [hParts] at h; cases h

theorem isNaN_of_pack (h : x.toModel = .pack .notANumber) : x.isNaN = true := by
  change x.toModel.unpack.isNaN = true
  rw [h]
  rfl

theorem add_notANumber (format : Format) (a : UnpackedFloat) :
    UnpackedFloat.add format a .notANumber = .notANumber := by
  cases a <;> rfl

theorem not_lt_of_isNaN (h : x.isNaN = true) (y : Float) : ¬x < y := by
  rw [FloatOrder.lt_iff_compare, unpack_of_isNaN h, compare_notANumber_left]
  nofun

theorem isNaN_of_pos (h : 0.0 < x) : x.isNaN = false := by
  refine eq_false_of_ne_true fun hNaN => ?_
  rw [FloatOrder.lt_iff_compare, FloatOrder.compare_swap x.toModel.unpack, unpack_of_isNaN hNaN,
    compare_notANumber_left] at h
  cases h

theorem Nonnegative.not_lt_zero (h : Nonnegative x) : ¬x < 0.0 := by
  rcases h with ⟨v, hValue⟩ | hInfinite
  · rw [hValue.lt_iff hasValue_zero]
    exact not_lt.mpr hValue.nonneg
  · rw [FloatOrder.lt_iff_compare, hInfinite]
    nofun

/-- The only infinity that is not negative is the positive one. -/
theorem Nonnegative.isInf_iff (h : Nonnegative x) :
    x.isInf = true ↔ x.toModel.unpack = .infinity .positive := by
  refine ⟨fun hInf => h.resolve_left ?_, fun hInfinite => ?_⟩
  · rintro ⟨v, hValue⟩
    rw [hValue.isInf] at hInf
    cases hInf
  · change x.toModel.unpack.isInf = true
    rw [hInfinite]
    rfl

/-- Nothing but infinity is not below infinity. -/
theorem Nonnegative.isInf_of_not_lt (hx : Nonnegative x) (hy : Nonnegative y)
    (hInf : x.isInf = true) (h : ¬y < x) : y.isInf = true := by
  rw [hx.isInf_iff] at hInf
  rw [hy.isInf_iff]
  refine hy.resolve_left ?_
  rintro ⟨v, parts, hParts, hMeasures⟩
  rw [FloatOrder.lt_iff_compare, hParts, hInf] at h
  cases hMeasures <;> exact h rfl

theorem nonnegative_of_not_lt (hNumber : x.isNaN = false) (h : ¬x < 0.0) : Nonnegative x := by
  by_cases hFinite : x.isFinite = true
  · exact (exists_value hFinite h).elim fun _ hValue => hValue.nonnegative
  · right
    change ¬x.toModel.unpack.isFinite = true at hFinite
    change x.toModel.unpack.isNaN = false at hNumber
    rw [FloatOrder.lt_iff_compare] at h
    cases hParts : x.toModel.unpack with
    | infinity sign =>
        cases sign with
        | positive => rfl
        | negative =>
            rw [hParts] at h
            exact absurd rfl h
    | notANumber =>
        rw [hParts] at hNumber
        cases hNumber
    | _ =>
        rw [hParts] at hFinite
        exact absurd rfl hFinite

/-- An absolute value is not below zero, whatever it is taken of. -/
theorem not_abs_lt_zero (x : Float) : ¬x.abs < 0.0 := by
  have hAbs : x.abs.toModel = .pack x.toModel.unpack.abs := rfl
  rcases unpack_cases x.toModel.toBits.toBitVec with hCase | ⟨sign, hCase⟩ |
    ⟨sign, m, e, hCase, hCanonical, hTop⟩
    <;> change x.toModel.unpack = _ at hCase <;> rw [hCase] at hAbs
  · exact not_lt_of_isNaN (isNaN_of_pack hAbs) 0.0
  · exact (nonnegative_of_infinity hAbs).not_lt_zero
  · have hValue : HasValue x.abs (scaled m e) := by
      refine hasValue_of_pack (hAbs.trans (congrArg _ ?_)) (measures_magnitude hCanonical hTop)
      rcases Nat.eq_zero_or_pos m with rfl | hPos
      · rfl
      · rw [magnitude_of_pos _ _ hPos, magnitude_of_pos _ _ hPos]
        rfl
    exact hValue.nonnegative.not_lt_zero

/-- The sum of two doubles is not below zero if neither of them is. -/
theorem not_add_lt_zero (hx : ¬x < 0.0) (hy : ¬y < 0.0) : ¬x + y < 0.0 := by
  have hSum : (x + y).toModel =
      .pack (UnpackedFloat.add Format.binary64 x.toModel.unpack y.toModel.unpack) := rfl
  cases hLeft : x.isNaN with
  | true =>
      rw [unpack_of_isNaN hLeft] at hSum
      exact not_lt_of_isNaN (isNaN_of_pack hSum) 0.0
  | false =>
      cases hRight : y.isNaN with
      | true =>
          rw [unpack_of_isNaN hRight, add_notANumber] at hSum
          exact not_lt_of_isNaN (isNaN_of_pack hSum) 0.0
      | false =>
          have hLeftSign := nonnegative_of_not_lt hLeft hx
          exact (hLeftSign.add (nonnegative_of_not_lt hRight hy)).not_lt_zero

/-- Dividing by a positive count does not lead below zero. A finite number divided by an infinite
count is zero, and infinity divided by it is no number. -/
theorem not_div_count_lt_zero (hx : ¬x < 0.0) {n : ℕ} (hn : 0 < n) :
    ¬x / Float.ofNat n < 0.0 := by
  have hQuotient : (x / Float.ofNat n).toModel = .pack (UnpackedFloat.div Format.binary64
      x.toModel.unpack (Float.ofNat n).toModel.unpack) := rfl
  cases hNumber : x.isNaN with
  | true =>
      rw [unpack_of_isNaN hNumber] at hQuotient
      exact not_lt_of_isNaN (isNaN_of_pack hQuotient) 0.0
  | false =>
      have hSign := nonnegative_of_not_lt hNumber hx
      cases ofNat_approximates n with
      | value hValue hNear =>
          have hOne := hNear.one_le (by exact_mod_cast hn)
          exact (hSign.div hValue (one_pos.trans_le hOne)).not_lt_zero
      | overflow hInfinite =>
          rw [hInfinite] at hQuotient
          rcases hSign with ⟨v, parts, hParts, hMeasures⟩ | hInfinity
          · rw [hParts] at hQuotient
            cases hMeasures <;>
              exact (hasValue_of_pack hQuotient (.zero _)).nonnegative.not_lt_zero
          · rw [hInfinity] at hQuotient
            exact not_lt_of_isNaN (isNaN_of_pack hQuotient) 0.0

end WitnessSearch.FloatRounding
