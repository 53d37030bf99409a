import Mathlib.Algebra.Order.Ring.Int
import Mathlib.Data.Prod.Lex

/-! The order of doubles. The doubles that are numbers have keys in a linear order, and comparing
two of them is comparing their keys. What is not a number is less than nothing and nothing is less
than it. -/

namespace WitnessSearch.FloatOrder

open Float.Model

/-- Keys are compared by kind and sign first, then by exponent and significand. -/
abbrev Key := ℤ ×ₗ ℤ ×ₗ ℤ

def signed : UnpackedFloat.Sign → ℤ → ℤ
  | .negative, value => -value
  | .positive, value => value

/-- The key of a double in parts. Both zeros have one key. The last case gets a key as well, but it
is in no order with the others. -/
def unpackedKey : UnpackedFloat → Key
  | .infinity sign => toLex (signed sign 2, toLex (0, 0))
  | .finite sign significand exponent _ =>
    toLex (signed sign 1, toLex (signed sign exponent, signed sign significand))
  | .zero _ => toLex (0, toLex (0, 0))
  | .notANumber => toLex (0, toLex (0, 0))

def key (x : Float) : Key := unpackedKey x.toModel.unpack

/-- Two numbers of one sign are compared by their exponents first and by their significands then. -/
theorem then_eq_lt_iff (m n : ℕ) (e f : ℤ) :
    (compare e f).then (compare m n) = .lt ↔ e < f ∨ e = f ∧ m < n := by
  simp [Ordering.then_eq_lt, Int.compare_eq_lt, Nat.compare_eq_lt]

theorem then_eq_gt_iff (m n : ℕ) (e f : ℤ) :
    (compare e f).then (compare m n) = .gt ↔ f < e ∨ e = f ∧ n < m := by
  simp [Ordering.then_eq_gt, Int.compare_eq_gt, Nat.compare_eq_gt]

/-- The kinds and signs of two doubles decide if they differ. -/
theorem compare_eq_lt_iff_of_ne {a b : UnpackedFloat} {c d : ℤ} {x y : ℤ ×ₗ ℤ}
    (hA : unpackedKey a = toLex (c, x)) (hB : unpackedKey b = toLex (d, y)) (hNe : c ≠ d)
    (hCompare : a.compare b = some (compare c d)) :
    a.compare b = some .lt ↔ unpackedKey a < unpackedKey b := by
  rw [hA, hB, hCompare, Prod.Lex.toLex_lt_toLex, Option.some.injEq, Int.compare_eq_lt]
  simp [hNe]

/-- Each pair of kinds and signs is a case of its own in the comparison, so the proof goes through
all of them. Only two finite doubles of one sign need their exponents and significands. -/
theorem compare_eq_lt_iff (a b : UnpackedFloat) (ha : a.isNaN = false) (hb : b.isNaN = false) :
    a.compare b = some .lt ↔ unpackedKey a < unpackedKey b := by
  cases a with
  | notANumber => cases ha
  | infinity s =>
      cases b with
      | notANumber => cases hb
      | infinity t => cases s <;> cases t <;> decide
      | _ t => cases s <;> cases t <;> exact compare_eq_lt_iff_of_ne rfl rfl (by decide) rfl
  | zero s =>
      cases b with
      | notANumber => cases hb
      | zero t => cases s <;> cases t <;> decide
      | _ t => cases t <;> exact compare_eq_lt_iff_of_ne rfl rfl (by decide) rfl
  | finite s m e =>
      cases b with
      | notANumber => cases hb
      | infinity t => cases s <;> cases t <;> exact compare_eq_lt_iff_of_ne rfl rfl (by decide) rfl
      | zero t => cases s <;> exact compare_eq_lt_iff_of_ne rfl rfl (by decide) rfl
      | finite t n f =>
          cases s <;> cases t
          case positive.positive =>
            change some ((compare e f).then (compare m n)) = some .lt ↔
              toLex ((1 : ℤ), toLex (e, (m : ℤ))) < toLex (1, toLex (f, (n : ℤ)))
            simp [Prod.Lex.toLex_lt_toLex, then_eq_lt_iff]
          case negative.negative =>
            change some ((compare e f).then (compare m n)).swap = some .lt ↔
              toLex ((-1 : ℤ), toLex (-e, -(m : ℤ))) < toLex (-1, toLex (-f, -(n : ℤ)))
            simp [Prod.Lex.toLex_lt_toLex, then_eq_gt_iff]
          all_goals exact compare_eq_lt_iff_of_ne rfl rfl (by decide) rfl

/-- Being less is read off the comparison of the unpacked parts. -/
theorem lt_iff_compare {x y : Float} :
    x < y ↔ x.toModel.unpack.compare y.toModel.unpack = some .lt := by
  change decide ((x.toModel.unpack.compare y.toModel.unpack == some .lt) = true) = true ↔ _
  simp

/-- Among numbers the order is that of the integer keys. -/
theorem lt_iff_key_lt {x y : Float} (hx : x.isNaN = false) (hy : y.isNaN = false) :
    x < y ↔ key x < key y :=
  lt_iff_compare.trans (compare_eq_lt_iff _ _ hx hy)

theorem then_swap (m n : ℕ) (e f : ℤ) :
    (compare f e).then (compare n m) = ((compare e f).then (compare m n)).swap := by
  rw [Ordering.swap_then, Int.compare_swap, Nat.compare_swap]

/-- Exchanging two doubles turns their comparison around, also where there is none. -/
theorem compare_swap (a b : UnpackedFloat) : b.compare a = (a.compare b).map Ordering.swap := by
  cases a with
  | notANumber => cases b <;> rfl
  | infinity s =>
      cases b with
      | notANumber => cases s <;> rfl
      | infinity t => cases s <;> cases t <;> rfl
      | zero t => cases s <;> rfl
      | finite t => cases s <;> cases t <;> rfl
  | zero s =>
      cases b with
      | notANumber => rfl
      | infinity t => cases t <;> rfl
      | zero t => rfl
      | finite t => cases t <;> rfl
  | finite s m e =>
      cases b with
      | notANumber => cases s <;> rfl
      | infinity t => cases s <;> cases t <;> rfl
      | zero t => cases s <;> rfl
      | finite t n f =>
          have hSwap := then_swap m n e f
          cases s <;> cases t
          case positive.positive => exact congrArg some hSwap
          case negative.negative => exact congrArg (fun order => some order.swap) hSwap
          all_goals rfl

/-- Equality of doubles is symmetric. It is not reflexive. -/
theorem beq_comm (x y : Float) : (x == y) = (y == x) := by
  change (x.toModel.unpack.compare y.toModel.unpack == some .eq) =
    (y.toModel.unpack.compare x.toModel.unpack == some .eq)
  rw [compare_swap x.toModel.unpack y.toModel.unpack]
  cases x.toModel.unpack.compare y.toModel.unpack with
  | none => rfl
  | some order => cases order <;> rfl

theorem le_iff_compare {x y : Float} :
    x ≤ y ↔ (x.toModel.unpack.compare y.toModel.unpack).any (·.isLE) = true := by
  change decide ((x.toModel.unpack.compare y.toModel.unpack).any (·.isLE) = true) = true ↔ _
  rw [decide_eq_true_eq]

/-- Being at most as large is being less or equal, also for what is no number. -/
theorem le_iff_lt_or_beq {x y : Float} : x ≤ y ↔ x < y ∨ (x == y) = true := by
  rw [le_iff_compare, lt_iff_compare]
  change _ ↔ _ ∨ (x.toModel.unpack.compare y.toModel.unpack == some .eq) = true
  cases x.toModel.unpack.compare y.toModel.unpack with
  | none => simp
  | some order => cases order <;> simp

/-- What is at most a number is not above it. -/
theorem not_lt_of_le {x y : Float} (h : x ≤ y) : ¬y < x := by
  rw [lt_iff_compare, compare_swap x.toModel.unpack y.toModel.unpack]
  rw [le_iff_lt_or_beq, lt_iff_compare] at h
  change _ ∨ (x.toModel.unpack.compare y.toModel.unpack == some .eq) = true at h
  cases hCompare : x.toModel.unpack.compare y.toModel.unpack with
  | none => simp
  | some order =>
      rw [hCompare] at h
      cases order
      · simp
      · simp
      · simp at h

/-- Numbers can be compared. -/
theorem compare_ne_none {a b : UnpackedFloat} (ha : a.isNaN = false) (hb : b.isNaN = false) :
    a.compare b ≠ none := by
  cases a with
  | notANumber => cases ha
  | infinity s =>
      cases b with
      | notANumber => cases hb
      | infinity t => cases s <;> cases t <;> nofun
      | zero => cases s <;> nofun
      | finite t => cases s <;> cases t <;> nofun
  | zero s =>
      cases b with
      | notANumber => cases hb
      | infinity t => cases t <;> nofun
      | zero => nofun
      | finite t => cases t <;> nofun
  | finite s =>
      cases b with
      | notANumber => cases hb
      | infinity t => cases s <;> cases t <;> nofun
      | zero => cases s <;> nofun
      | finite t => cases s <;> cases t <;> nofun

/-- Numbers neither of which is less are equal. -/
theorem beq_of_not_lt {x y : Float} (hx : x.isNaN = false) (hy : y.isNaN = false) (h : ¬x < y)
    (h' : ¬y < x) : (x == y) = true := by
  have hSome := compare_ne_none hx hy
  rw [lt_iff_compare] at h h'
  rw [compare_swap x.toModel.unpack y.toModel.unpack] at h'
  change (x.toModel.unpack.compare y.toModel.unpack == some .eq) = true
  change x.toModel.unpack.compare y.toModel.unpack ≠ none at hSome
  cases hCompare : x.toModel.unpack.compare y.toModel.unpack with
  | none => exact absurd hCompare hSome
  | some order =>
      rw [hCompare] at h h'
      cases order
      · exact absurd rfl h
      · rfl
      · exact absurd rfl h'

/-- Among numbers, being at most as large is the same as not being greater. -/
theorem le_iff_not_lt {x y : Float} (hx : x.isNaN = false) (hy : y.isNaN = false) :
    x ≤ y ↔ ¬y < x := by
  constructor
  · exact not_lt_of_le
  · intro h
    by_cases hLess : x < y
    · exact le_iff_lt_or_beq.mpr (.inl hLess)
    · exact le_iff_lt_or_beq.mpr (.inr (beq_of_not_lt hx hy hLess h))

theorem compare_negInfinity_ne_lt (a : UnpackedFloat) :
    a.compare (.infinity .negative) ≠ some .lt := by
  cases a with
  | infinity sign => cases sign <;> nofun
  | _ => nofun

theorem not_lt_negInfinity (x : Float) : ¬x < -1.0 / 0.0 := by
  rw [lt_iff_compare]
  exact compare_negInfinity_ne_lt x.toModel.unpack

theorem lt_irrefl {x : Float} (hx : x.isNaN = false) : ¬x < x := by
  rw [lt_iff_key_lt hx hx]
  exact (le_refl (key x)).not_gt

theorem lt_asymm {x y : Float} (hx : x.isNaN = false) (hy : y.isNaN = false) (h : x < y) :
    ¬y < x := by
  rw [lt_iff_key_lt hx hy] at h
  rw [lt_iff_key_lt hy hx]
  exact h.not_gt

/-- Among numbers, what is less than one that is not greater than a third is less than the third. -/
theorem lt_of_lt_of_not_lt {x y z : Float} (hx : x.isNaN = false) (hy : y.isNaN = false)
    (hz : z.isNaN = false) (hxy : x < y) (hyz : ¬z < y) : x < z := by
  rw [lt_iff_key_lt hx hy] at hxy
  rw [lt_iff_key_lt hz hy, not_lt] at hyz
  exact (lt_iff_key_lt hx hz).mpr (hxy.trans_le hyz)

/-- Among numbers, what is not greater than one that is less than a third is less than the third. -/
theorem lt_of_not_lt_of_lt {x y z : Float} (hx : x.isNaN = false) (hy : y.isNaN = false)
    (hz : z.isNaN = false) (hxy : ¬y < x) (hyz : y < z) : x < z := by
  rw [lt_iff_key_lt hy hx, not_lt] at hxy
  rw [lt_iff_key_lt hy hz] at hyz
  exact (lt_iff_key_lt hx hz).mpr (hxy.trans_lt hyz)

/-- Among numbers being no less is transitive. -/
theorem not_lt_trans {x y z : Float} (hx : x.isNaN = false) (hy : y.isNaN = false)
    (hz : z.isNaN = false) (hxy : ¬y < x) (hyz : ¬z < y) : ¬z < x := by
  rw [lt_iff_key_lt hy hx, not_lt] at hxy
  rw [lt_iff_key_lt hz hy, not_lt] at hyz
  rw [lt_iff_key_lt hz hx, not_lt]
  exact hxy.trans hyz

end WitnessSearch.FloatOrder
