import Mathlib
import WitnessSearch.Proofs.Float.Values

/-! When two doubles are the same bit by bit. Both zeros have one value, but a positive value is
that of a single double. -/

namespace WitnessSearch.FloatRounding

open Float.Model UnpackedFloat

variable {x y : Float} {v w : ℚ}

/-- A double is fixed by its parts. -/
theorem eq_of_unpack_eq (h : x.toModel.unpack = y.toModel.unpack) : x = y := by
  obtain ⟨⟨bits, hValid⟩⟩ := x
  obtain ⟨⟨bits', hValid'⟩⟩ := y
  have hBits := (unpack_inj_of_valid hValid hValid').mp h
  congr
  exact UInt64.toBitVec_inj.mp hBits

/-- A positive number is measured by one set of parts only. -/
theorem Measures.eq_of_pos {a b : UnpackedFloat} (ha : Measures a v) (hb : Measures b w)
    (hSame : v = w) (hPos : 0 < v) : a = b := by
  cases ha with
  | zero => exact absurd hPos (lt_irrefl 0)
  | @finite m e _ hCanonical =>
      cases hb with
      | zero => exact absurd hSame hPos.ne'
      | @finite n f _ hOther =>
          have hNotLess := (scaled_lt_iff hCanonical hOther).not.mp hSame.not_lt
          have hNotMore := (scaled_lt_iff hOther hCanonical).not.mp hSame.not_gt
          have hExponent : e = f := by omega
          have hSignificand : m = n := by omega
          simp [hExponent, hSignificand]

/-- Doubles of one positive value are the same. -/
theorem HasValue.eq_of_pos (hx : HasValue x v) (hy : HasValue y v) (hPos : 0 < v) : x = y := by
  obtain ⟨a, hA, hMeasuresA⟩ := hx
  obtain ⟨b, hB, hMeasuresB⟩ := hy
  apply eq_of_unpack_eq
  rw [hA, hB, hMeasuresA.eq_of_pos hMeasuresB rfl hPos]

end WitnessSearch.FloatRounding
