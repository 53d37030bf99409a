import WitnessSearch.Proofs.Float.Rounding
import WitnessSearch.Proofs.FloatOrder

/-! The values of doubles that are not negative. Such a double is a significand times a power of
two, or a zero of either sign. Doubles are compared as their values are, and what was rounded is
stored and found again, or is infinite if its exponent does not fit. -/

namespace WitnessSearch.FloatRounding

open Float.Model UnpackedFloat

def topExponent : ℤ := 971

section Packing

/-- The sign can be read off a packed double. -/
theorem unpackSign_packComponents {format : Format} {sign : Sign} {e : BitVec format.exponentBits}
    {m : BitVec format.mantissaBitsWithoutImplicit} :
    unpackSign (packComponents format sign e m) = sign.toBitVec := by
  ext i hi
  have hZero : i = 0 := by omega
  subst hZero
  unfold unpackSign packComponents
  simp [BitVec.getElem_append, BitVec.getLsbD_append]

theorem ofBitVec_toBitVec (sign : Sign) : Sign.ofBitVec sign.toBitVec = sign := by
  cases sign <;> rfl

/-- A significand with the leading bit restored. -/
theorem toNat_leading_append (m : BitVec 52) : (1#1 ++ m).toNat = 2 ^ 52 + m.toNat := by
  rw [BitVec.toNat_append, ← Nat.shiftLeft_add_eq_or_of_lt m.isLt]
  rfl

abbrev exponentBits (bits : BitVec 64) : BitVec 11 :=
  @unpackExponent Format.binary64 bits

abbrev mantissaBits (bits : BitVec 64) : BitVec 52 :=
  @unpackMantissa Format.binary64 bits

abbrev signOf (bits : BitVec 64) : Sign :=
  .ofBitVec (@unpackSign Format.binary64 bits)

variable {bits : BitVec 64}

/-- All ones in the exponent and nothing behind them is an infinity. -/
theorem unpack_infinite (hExponent : exponentBits bits = -1#11) (hMantissa : mantissaBits bits = 0#52) :
    UnpackedFloat.unpack Format.binary64 bits = .infinity (signOf bits) := by
  unfold UnpackedFloat.unpack
  rw [if_pos hExponent, if_pos hMantissa]

/-- All ones in the exponent and anything else behind them is no number. -/
theorem unpack_notANumber (hExponent : exponentBits bits = -1#11)
    (hMantissa : mantissaBits bits ≠ 0#52) :
    UnpackedFloat.unpack Format.binary64 bits = .notANumber := by
  unfold UnpackedFloat.unpack
  rw [if_pos hExponent, if_neg hMantissa]

/-- With the least exponent the significand is read without its leading bit. -/
theorem unpack_least (hExponent : exponentBits bits = 0#11) :
    UnpackedFloat.unpack Format.binary64 bits =
      magnitude (signOf bits) (mantissaBits bits).toNat (-1074) := by
  have hTop : exponentBits bits ≠ -1#11 := by
    rw [hExponent]
    decide
  unfold UnpackedFloat.unpack
  rw [if_neg hTop, if_pos hExponent]
  by_cases hZero : mantissaBits bits = 0#52
  · rw [dif_pos hZero, hZero]
    rfl
  · have hNat : (mantissaBits bits).toNat ≠ 0 := fun h => hZero (BitVec.eq_of_toNat_eq h)
    rw [dif_neg hZero, magnitude_of_pos _ _ (Nat.pos_of_ne_zero hNat)]
    change finite _ _ (((exponentBits bits).toNat : ℤ) - 1075 + 1) _ = _
    congr 1
    rw [hExponent]
    rfl

/-- With any other exponent the significand has a leading bit that is not written. -/
theorem unpack_full (hTop : exponentBits bits ≠ -1#11) (hLeast : exponentBits bits ≠ 0#11) :
    UnpackedFloat.unpack Format.binary64 bits =
      magnitude (signOf bits) (2 ^ 52 + (mantissaBits bits).toNat)
        ((exponentBits bits).toNat - 1075) := by
  unfold UnpackedFloat.unpack
  rw [if_neg hTop, if_neg hLeast, magnitude_of_pos _ _ (by omega)]
  change finite _ _ (((exponentBits bits).toNat : ℤ) - 1075) _ = _
  congr 1
  exact toNat_leading_append (mantissaBits bits)

/-- What bits can stand for: no number, an infinity, a zero, or a finite number with its parts. -/
theorem unpack_cases (bits : BitVec 64) :
    UnpackedFloat.unpack Format.binary64 bits = .notANumber ∨
      (∃ sign, UnpackedFloat.unpack Format.binary64 bits = .infinity sign) ∨
      ∃ sign m e, UnpackedFloat.unpack Format.binary64 bits = magnitude sign m e ∧
        Canonical m e ∧ e ≤ topExponent := by
  have hMantissa := (mantissaBits bits).isLt
  by_cases hTop : exponentBits bits = -1#11
  · by_cases hZero : mantissaBits bits = 0#52
    · exact Or.inr (Or.inl ⟨_, unpack_infinite hTop hZero⟩)
    · exact Or.inl (unpack_notANumber hTop hZero)
  right; right
  by_cases hLeast : exponentBits bits = 0#11
  · exact ⟨_, _, _, unpack_least hLeast, ⟨by omega, le_rfl, Or.inr rfl⟩, by decide⟩
  · have hLow : (exponentBits bits).toNat ≠ 0 := fun h => hLeast (BitVec.eq_of_toNat_eq h)
    have hHigh : (exponentBits bits).toNat ≠ 2047 := fun h => hTop (BitVec.eq_of_toNat_eq h)
    have hBits := (exponentBits bits).isLt
    refine ⟨_, _, _, unpack_full hTop hLeast, ⟨by omega, by omega, Or.inl (by omega)⟩, ?_⟩
    unfold topExponent
    omega

/-- The exponent can be read off a packed double. -/
theorem exponentBits_packed (sign : Sign) (e : BitVec 11) (m : BitVec 52) :
    exponentBits (packComponents Format.binary64 sign e m) = e :=
  unpackExponent_packComponents

theorem mantissaBits_packed (sign : Sign) (e : BitVec 11) (m : BitVec 52) :
    mantissaBits (packComponents Format.binary64 sign e m) = m :=
  unpackMantissa_packComponents

theorem signOf_packed (sign : Sign) (e : BitVec 11) (m : BitVec 52) :
    signOf (packComponents Format.binary64 sign e m) = sign :=
  (congrArg Sign.ofBitVec unpackSign_packComponents).trans (ofBitVec_toBitVec sign)

/-- How a finite double is stored. The exponent is stored with a bias, and the leading bit of a full
significand is not stored. -/
theorem pack_finite (sign : Sign) {m : ℕ} {e : ℤ} (h : 0 < m) :
    UnpackedFloat.pack Format.binary64 (.finite sign m e h) =
      if 2 ^ 11 ≤ (e + 1075).toNat + 1 then packedInfinity Format.binary64 sign
      else if m.log2 + 1 = 53 then
        packComponents Format.binary64 sign (.ofNat 11 (e + 1075).toNat) (.ofNat 52 m)
      else packComponents Format.binary64 sign 0#11 (.ofNat 52 m) := by
  have hBias : (e + 1075).toNat = (e + (1023 : ℕ) + (52 : ℕ)).toNat := by
    congr 1
    omega
  rw [hBias]
  rfl

variable {m : ℕ} {e : ℤ}

/-- What was stored is found again, for parts in their canonical form whose exponent is not too
large. -/
theorem unpack_pack (sign : Sign) (h : Canonical m e) (hTop : e ≤ topExponent) :
    UnpackedFloat.unpack Format.binary64 (UnpackedFloat.pack Format.binary64 (magnitude sign m e)) =
      magnitude sign m e := by
  unfold topExponent at hTop
  obtain ⟨hBits, hLeast, hFull⟩ := h
  rcases Nat.eq_zero_or_pos m with rfl | hPos
  · change UnpackedFloat.unpack Format.binary64 (packComponents Format.binary64 sign 0#11 0#52) = _
    rw [unpack_least (exponentBits_packed _ _ _), signOf_packed, mantissaBits_packed]
    rfl
  have hOverflow : ¬2 ^ 11 ≤ (e + 1075).toNat + 1 := by omega
  rw [magnitude_of_pos sign e hPos, pack_finite, if_neg hOverflow, ← magnitude_of_pos sign e hPos]
  by_cases hHidden : 2 ^ 52 ≤ m
  · have hLog : m.log2 + 1 = 53 := by
      have hLow := (Nat.le_log2 hPos.ne').mpr hHidden
      have hHigh := (Nat.log2_lt hPos.ne').mpr hBits
      omega
    have hExponent : (BitVec.ofNat 11 (e + 1075).toNat).toNat = (e + 1075).toNat := by
      rw [BitVec.toNat_ofNat, Nat.mod_eq_of_lt (by omega)]
    have hMantissa : (BitVec.ofNat 52 m).toNat = m - 2 ^ 52 := by
      rw [BitVec.toNat_ofNat]
      omega
    have hNotTop : BitVec.ofNat 11 (e + 1075).toNat ≠ -1#11 := by
      intro hSame
      have := congrArg BitVec.toNat hSame
      rw [hExponent] at this
      change _ = 2047 at this
      omega
    have hNotLeast : BitVec.ofNat 11 (e + 1075).toNat ≠ 0#11 := by
      intro hSame
      have := congrArg BitVec.toNat hSame
      rw [hExponent] at this
      change _ = 0 at this
      omega
    rw [if_pos hLog, unpack_full (by rwa [exponentBits_packed]) (by rwa [exponentBits_packed]),
      signOf_packed, mantissaBits_packed, exponentBits_packed, hExponent, hMantissa,
      Nat.add_sub_of_le hHidden, Int.toNat_of_nonneg (by omega), add_sub_cancel_right]
  · have hLog : ¬m.log2 + 1 = 53 := by
      have hHigh := (Nat.log2_lt hPos.ne').mpr (Nat.lt_of_not_le hHidden)
      omega
    have hMantissa : (BitVec.ofNat 52 m).toNat = m := by
      rw [BitVec.toNat_ofNat, Nat.mod_eq_of_lt (by omega)]
    rw [if_neg hLog, unpack_least (exponentBits_packed _ _ _), signOf_packed, mantissaBits_packed,
      hMantissa, hFull.resolve_left hHidden]

/-- A double with an exponent that does not fit is stored as an infinite one. -/
theorem unpack_pack_overflow (sign : Sign) (h : Canonical m e) (hTop : topExponent < e) :
    UnpackedFloat.unpack Format.binary64 (UnpackedFloat.pack Format.binary64 (magnitude sign m e)) =
      .infinity sign := by
  unfold topExponent at hTop
  obtain ⟨hBits, hLeast, hFull⟩ := h
  have hPos : 0 < m := by omega
  have hOverflow : 2 ^ 11 ≤ (e + 1075).toNat + 1 := by omega
  rw [magnitude_of_pos sign e hPos, pack_finite, if_pos hOverflow]
  exact (unpack_infinite (exponentBits_packed _ _ _) (mantissaBits_packed _ _ _)).trans
    (congrArg _ (signOf_packed _ _ _))

end Packing

section Values

variable {m n : ℕ} {e f : ℤ}

/-- Of two doubles the one with the smaller exponent is smaller. -/
theorem scaled_lt_of_exponent_lt (hm : Canonical m e) (hn : Canonical n f) (h : e < f) :
    scaled m e < scaled n f := by
  obtain ⟨k, rfl⟩ := Int.le.dest (Int.add_one_le_of_lt h)
  have hFull : 2 ^ 52 ≤ n := hn.full.resolve_right (by have := hm.least; omega)
  have hBits : m < n * 2 ^ (k + 1) := by
    have hOne : 1 ≤ 2 ^ k := Nat.one_le_two_pow
    rw [pow_succ]
    have := hm.bits
    nlinarith
  have hShift : scaled n (e + 1 + k) = scaled (n * 2 ^ (k + 1)) e := by
    rw [scaled_mul_pow]
    congr 1
    push_cast
    ring
  rw [hShift, scaled, scaled]
  exact mul_lt_mul_of_pos_right (by exact_mod_cast hBits) (by positivity)

/-- Doubles are ordered by exponent first and significand second. -/
theorem scaled_lt_iff (hm : Canonical m e) (hn : Canonical n f) :
    scaled m e < scaled n f ↔ e < f ∨ e = f ∧ m < n := by
  have hPower : ∀ k : ℤ, (0 : ℚ) < 2 ^ k := fun k => by positivity
  rcases lt_trichotomy e f with hLess | rfl | hMore
  · simp [hLess, scaled_lt_of_exponent_lt hm hn hLess]
  · rw [scaled, scaled, mul_lt_mul_iff_left₀ (hPower e), Nat.cast_lt]
    simp
  · have hNot := (scaled_lt_of_exponent_lt hn hm hMore).not_gt
    simp [hNot, hMore.not_gt, hMore.ne']

/-- The value of a double in parts that is finite and not negative. -/
inductive Measures : UnpackedFloat → ℚ → Prop
  | zero (sign : Sign) : Measures (.zero sign) 0
  | finite {m : ℕ} {e : ℤ} (hPos : 0 < m) (hCanonical : Canonical m e) (hTop : e ≤ topExponent) :
      Measures (.finite .positive m e hPos) (scaled m e)

/-- A significand in its canonical form measures the number that it makes with its exponent. -/
theorem measures_magnitude (h : Canonical m e) (hTop : e ≤ topExponent) :
    Measures (magnitude .positive m e) (scaled m e) := by
  rcases Nat.eq_zero_or_pos m with rfl | hPos
  · rw [magnitude_zero, scaled, Nat.cast_zero, zero_mul]
    exact .zero _
  · rw [magnitude_of_pos _ _ hPos]
    exact .finite hPos h hTop

/-- The value of a double that is finite and not negative. -/
def HasValue (x : Float) (v : ℚ) : Prop :=
  ∃ parts, x.toModel.unpack = parts ∧ Measures parts v

theorem hasValue_zero : HasValue 0.0 0 :=
  ⟨_, rfl, .zero .positive⟩

theorem hasValue_one : HasValue 1.0 1 := by
  have hOne : scaled (2 ^ 52) (-52) = 1 := by norm_num [scaled]
  have hParts : (1.0 : Float).toModel.unpack = .finite .positive (2 ^ 52) (-52) (by decide) := rfl
  refine ⟨_, hParts, ?_⟩
  rw [← hOne]
  exact .finite _ ⟨by decide, by decide, Or.inl le_rfl⟩ (by decide)

theorem hasValue_two : HasValue 2.0 2 := by
  have hTwo : scaled (2 ^ 52) (-51) = 2 := by norm_num [scaled]
  have hParts : (2.0 : Float).toModel.unpack = .finite .positive (2 ^ 52) (-51) (by decide) := rfl
  refine ⟨_, hParts, ?_⟩
  rw [← hTwo]
  exact .finite _ ⟨by decide, by decide, Or.inl le_rfl⟩ (by decide)

variable {x y : Float} {v w : ℚ}

namespace HasValue

/-- No value is below zero, since only doubles that are not negative have one. -/
theorem nonneg (h : HasValue x v) : 0 ≤ v := by
  obtain ⟨_, -, hParts⟩ := h
  cases hParts with
  | zero => exact le_rfl
  | finite => exact scaled_nonneg _ _

theorem isNaN (h : HasValue x v) : x.isNaN = false := by
  obtain ⟨parts, hx, hParts⟩ := h
  change x.toModel.unpack.isNaN = false
  rw [hx]
  cases hParts <;> rfl

theorem isFinite (h : HasValue x v) : x.isFinite = true := by
  obtain ⟨parts, hx, hParts⟩ := h
  change x.toModel.unpack.isFinite = true
  rw [hx]
  cases hParts <;> rfl

theorem isInf (h : HasValue x v) : x.isInf = false := by
  obtain ⟨parts, hx, hParts⟩ := h
  change x.toModel.unpack.isInf = false
  rw [hx]
  cases hParts <;> rfl

/-- Doubles with values are compared by their values. -/
theorem lt_iff (hx : HasValue x v) (hy : HasValue y w) : x < y ↔ v < w := by
  obtain ⟨a, hA, hx⟩ := hx
  obtain ⟨b, hB, hy⟩ := hy
  rw [FloatOrder.lt_iff_compare, hA, hB]
  cases hx with
  | zero =>
      cases hy with
      | zero =>
          change some Ordering.eq = some .lt ↔ _
          simp
      | finite hPos =>
          change some Ordering.lt = some .lt ↔ _
          simp [scaled_pos hPos]
  | finite hPos hCanonical =>
      cases hy with
      | zero =>
          change some Ordering.gt = some .lt ↔ _
          simp [scaled_nonneg]
      | finite _ hOther =>
          rw [scaled_lt_iff hCanonical hOther, ← FloatOrder.then_eq_lt_iff]
          exact Option.some_inj

/-- Doubles with values are compared by their values, also for being at most as large. -/
theorem le_iff (hx : HasValue x v) (hy : HasValue y w) : x ≤ y ↔ v ≤ w := by
  rw [FloatOrder.le_iff_not_lt hx.isNaN hy.isNaN, hy.lt_iff hx, not_lt]

end HasValue

/-- A double that is finite and not negative has a value. -/
theorem exists_value (hFinite : x.isFinite = true) (hNonneg : ¬x < 0.0) : ∃ v, HasValue x v := by
  change x.toModel.unpack.isFinite = true at hFinite
  rw [FloatOrder.lt_iff_compare] at hNonneg
  rcases unpack_cases x.toModel.toBits.toBitVec with hCase | ⟨sign, hCase⟩ | ⟨sign, m, e, hCase, h, hTop⟩
    <;> change x.toModel.unpack = _ at hCase <;> rw [hCase] at hFinite hNonneg
  · cases hFinite
  · cases hFinite
  · rcases Nat.eq_zero_or_pos m with rfl | hPos
    · exact ⟨0, _, hCase, .zero sign⟩
    · cases sign with
      | negative =>
          rw [magnitude_of_pos _ _ hPos] at hNonneg
          exact absurd rfl hNonneg
      | positive => exact ⟨_, _, hCase, measures_magnitude h hTop⟩

end Values

end WitnessSearch.FloatRounding
