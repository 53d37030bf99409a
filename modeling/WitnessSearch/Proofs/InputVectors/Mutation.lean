import WitnessSearch.InputVector.Basic
import WitnessSearch.Proofs.Checked
import WitnessSearch.Proofs.Random.Draws
import WitnessSearch.Random.Replay

/-! Where a mutated argument ends up. The step is an integer that is not zero, added with saturation
and clamped to the bounds. If the argument is left where it was, it stands at a bound or the sum was
cut off there, and then the step in the other direction leads away from it, unless both bounds are
at its place. -/

namespace WitnessSearch.InputVector

open Checked Draw

variable {vector : InputVector}

section Step

/-- The width of the steps is refused exactly if the distance of the bounds overflows. -/
theorem stepWidth_eq_error_iff {fault : Fault} :
    vector.stepWidth = .error fault ↔
      ¬InRange (vector.high.toInt - vector.low.toInt) ∧ fault = .subtractionOverflow := by
  rw [← narrow_eq_error_iff, stepWidth, Checked.sub]
  cases narrow .subtractionOverflow (vector.high.toInt - vector.low.toInt) with
  | ok width => exact ⟨nofun, nofun⟩
  | error refused =>
      constructor
      · rintro ⟨⟩
        rfl
      · rintro ⟨⟩
        rfl

theorem exists_stepWidth (h : InRange (vector.high.toInt - vector.low.toInt)) :
    ∃ width, vector.stepWidth = .ok width := by
  cases hWidth : vector.stepWidth with
  | ok width => exact ⟨width, rfl⟩
  | error fault => exact absurd h (stepWidth_eq_error_iff.mp hWidth).1

/-- In either direction a step ends between the bounds. It leads somewhere else, unless there is
nowhere else to go. -/
theorem exists_step (h : vector.low ≤ vector.high) (old : Int64) {delta : Int64}
    (hDelta : delta ≠ 0) :
    ∃ moved, vector.step old delta = .ok moved ∧ vector.low ≤ moved ∧ moved ≤ vector.high ∧
      (moved = old ↔ vector.low = old ∧ vector.high = old) := by
  obtain ⟨there, hThere, hThereValue⟩ := exists_clamp h (saturatingAdd old delta)
  obtain ⟨back, hBack, hBackValue⟩ := exists_clamp h (saturatingSub old delta)
  have hStep : vector.step old delta = .ok (if there = old then back else there) := by
    rw [step, hThere, hBack]
    change (if there = old then _ else _) = _
    split <;> rfl
  refine ⟨_, hStep, ?_⟩
  rw [saturatingAdd, toInt_saturate] at hThereValue
  rw [saturatingSub, toInt_saturate] at hBackValue
  have hNotZero : delta.toInt ≠ 0 := fun hZero => hDelta (Int64.toInt_inj.mp hZero)
  have hLowRange := vector.low.le_toInt
  have hHighRange := vector.high.toInt_lt
  simp only [Int64.le_iff_toInt_le, ← Int64.toInt_inj] at h ⊢
  split
  · -- The argument was kept back at a bound, and the other direction leads away from it.
    have hAtBound : old.toInt = vector.high.toInt ∧ 0 < delta.toInt ∨
        old.toInt = vector.low.toInt ∧ delta.toInt < 0 := by
      omega
    omega
  · omega

end Step

section Runs

variable {ρ : Type} [RandomSource ρ] {faults : Fault → Prop}

/-- What is drawn before anything is computed: the place of an argument and the noise of its step.
-/
def aim (vector : InputVector) : Draw ρ (Nat × Float) := do
  let i ← Draw.below vector.args.length
  let noise ← Draw.normal
  return (i, noise)

def land (vector : InputVector) (i : Nat) (noise : Float) : Draw ρ InputVector := do
  let width ← ofExcept vector.stepWidth
  let rounded := (noise * width).round.toInt64
  let delta ← if rounded = 0 then unitStep else pure rounded
  match vector.args[i]? with
  | none => throw (.indexOutOfBounds vector.args.length i)
  | some old =>
    let moved ← ofExcept (vector.step old delta)
    return { vector with args := vector.args.set i moved }

/-- A test without arguments is left as it is, and nothing is drawn. -/
theorem mutate_of_nil (h : vector.args = []) (source : ρ) :
    vector.mutate source = .ok vector source := by
  rw [mutate, h]
  rfl

/-- A mutation first takes aim at an argument and then lands a step on it. -/
theorem mutate_eq (hSome : vector.args ≠ []) :
    (vector.mutate : Draw ρ InputVector) = vector.aim >>= fun aim => vector.land aim.1 aim.2 := by
  rw [mutate, if_neg (by simpa using hSome), aim, bind_assoc]
  refine bind_congr fun i => ?_
  rw [bind_assoc]
  refine bind_congr fun noise => ?_
  rw [pure_bind]
  rfl

theorem yields_aim (hEndless : faults .endlessRejection) (hSome : vector.args ≠ []) :
    Yields faults (vector.aim : Draw ρ (Nat × Float)) (·.1 < vector.args.length) := by
  refine Guards.bind (yields_below hEndless (List.length_pos_iff.mpr hSome)) fun i hi => ?_
  exact Guards.bind (yields_normal hEndless) fun noise _ => Guards.pure hi

/-- The step that stands in for a noise too small is never zero. -/
theorem yields_unitStep : Yields faults (unitStep : Draw ρ Int64) (· ≠ 0) := by
  refine Guards.bind (yields_bernoulli (.inr ⟨by decide +kernel, by decide +kernel⟩))
    fun up _ => Guards.pure ?_
  cases up <;> decide

/-- The vector after the argument at `i` was moved. -/
def Moves (vector : InputVector) (i : Nat) (after : InputVector) : Prop :=
  ∃ old moved, vector.args[i]? = some old ∧
    after = { vector with args := vector.args.set i moved } ∧
    vector.low ≤ moved ∧ moved ≤ vector.high ∧
    (moved = old ↔ vector.low = old ∧ vector.high = old)

/-- A step lands within the bounds and moves the argument it was aimed at. -/
theorem yields_land (hBounds : vector.low ≤ vector.high)
    (hSpan : InRange (vector.high.toInt - vector.low.toInt)) {i : Nat}
    (hi : i < vector.args.length) (noise : Float) :
    Yields faults (vector.land i noise : Draw ρ InputVector) (vector.Moves i) := by
  obtain ⟨width, hWidth⟩ := exists_stepWidth hSpan
  refine Confines.ofExcept_bind hWidth ?_
  simp only [List.getElem?_eq_getElem hi]
  have hMove : ∀ delta, delta ≠ 0 → Yields faults (do
      let moved ← ofExcept (vector.step vector.args[i] delta)
      return { vector with args := vector.args.set i moved } : Draw ρ InputVector)
      (vector.Moves i) := by
    intro delta hDelta
    obtain ⟨moved, hMoved, hLow, hHigh, hStays⟩ := exists_step hBounds vector.args[i] hDelta
    refine Confines.ofExcept_bind hMoved (Guards.pure ?_)
    exact ⟨vector.args[i], moved, List.getElem?_eq_getElem hi, rfl, hLow, hHigh, hStays⟩
  split
  · exact Guards.bind yields_unitStep hMove
  · rename_i hRounded
    exact hMove _ hRounded

/-- Bounds whose difference does not fit stop the mutation with an overflow, wherever it was aimed.
-/
theorem land_of_wide (h : ¬InRange (vector.high.toInt - vector.low.toInt)) (i : Nat)
    (noise : Float) (source : ρ) :
    vector.land i noise source = .error .subtractionOverflow source := by
  rw [land, stepWidth_eq_error_iff.mpr ⟨h, rfl⟩]
  rfl

/-- A mutation goes as far as its draws go. Then it is up to the distance of the bounds. -/
theorem mutate_outcome (hBounds : vector.low ≤ vector.high) (hSome : vector.args ≠ [])
    (source : ρ) :
    (∃ fault final, vector.aim source = .error fault final ∧
      vector.mutate source = .error fault final) ∨
    ∃ aim final, vector.aim source = .ok aim final ∧
      (¬InRange (vector.high.toInt - vector.low.toInt) ∧
          vector.mutate source = .error .subtractionOverflow final ∨
        InRange (vector.high.toInt - vector.low.toInt) ∧
          ∃ after last, vector.mutate source = .ok after last ∧ vector.Moves aim.1 after) := by
  have hDraws : Yields (· = .endlessRejection) (vector.aim : Draw ρ (Nat × Float))
      (·.1 < vector.args.length) := yields_aim rfl hSome
  rw [mutate_eq hSome]
  cases hAim : (vector.aim : Draw ρ (Nat × Float)) source with
  | error fault final => exact .inl ⟨fault, final, rfl, bind_of_error hAim⟩
  | ok aim final =>
      refine .inr ⟨aim, final, rfl, ?_⟩
      rw [bind_of_ok hAim]
      by_cases hSpan : InRange (vector.high.toInt - vector.low.toInt)
      · have hLand : Yields (fun _ => False) (vector.land aim.1 aim.2 : Draw ρ InputVector) _ :=
          yields_land hBounds hSpan (hDraws.answer trivial hAim).1 aim.2
        obtain ⟨after, last, hAfter, hMoves, -⟩ := hLand.exists_answer final trivial
        exact .inr ⟨hSpan, after, last, hAfter, hMoves⟩
      · exact .inl ⟨hSpan, land_of_wide hSpan _ _ _⟩

/-- A mutation fails only where its aim does, or else because the difference of its bounds
overflows. -/
theorem mutate_eq_error_iff (hBounds : vector.low ≤ vector.high) (hSome : vector.args ≠ [])
    {source final : ρ} {fault : Fault} :
    vector.mutate source = .error fault final ↔
      vector.aim source = .error fault final ∨
        fault = .subtractionOverflow ∧ (∃ aim, vector.aim source = .ok aim final) ∧
          ¬InRange (vector.high.toInt - vector.low.toInt) := by
  rcases mutate_outcome hBounds hSome source with
    ⟨fault', final', hAim, hRun⟩ | ⟨aim, middle, hAim, ⟨hWide, hRun⟩ | ⟨hSpan, _, _, hRun, -⟩⟩
  · rw [hRun, hAim]
    constructor
    · rintro ⟨⟩
      exact .inl rfl
    · rintro (⟨⟨⟩⟩ | ⟨-, ⟨_, ⟨⟩⟩, -⟩)
      rfl
  · rw [hRun, hAim]
    constructor
    · rintro ⟨⟩
      exact .inr ⟨rfl, ⟨aim, rfl⟩, hWide⟩
    · rintro (⟨⟨⟩⟩ | ⟨rfl, ⟨_, ⟨⟩⟩, -⟩)
      rfl
  · rw [hRun, hAim]
    refine ⟨nofun, ?_⟩
    rintro (⟨⟨⟩⟩ | ⟨-, -, hWide⟩)
    exact absurd hSpan hWide

/-- A mutation that answers has moved one argument. -/
theorem moves_of_mutate (hBounds : vector.low ≤ vector.high) (hSome : vector.args ≠ [])
    {source final : ρ} {after : InputVector} (h : vector.mutate source = .ok after final) :
    ∃ i, vector.Moves i after := by
  rcases mutate_outcome hBounds hSome source with
    ⟨_, _, -, hRun⟩ | ⟨aim, _, -, ⟨-, hRun⟩ | ⟨-, _, _, hRun, hMoves⟩⟩
  · cases h.symm.trans hRun
  · cases h.symm.trans hRun
  · cases h.symm.trans hRun
    exact ⟨aim.1, hMoves⟩

/-- A mutation moves one argument and keeps it between the bounds, wherever it was before and
whatever the source has. The argument is somewhere else then, unless both bounds are at its place.
A vector without arguments stays as it is. Where there are arguments a mutation fails exactly if the
distance of the bounds overflows, provided that its draws come to an end. -/
theorem mutate_moves_one_argument (hBounds : vector.low ≤ vector.high) (source : ρ) :
    (∀ fault final, vector.mutate source = .error fault final ↔ vector.args ≠ [] ∧
      (vector.aim source = .error fault final ∨
        fault = .subtractionOverflow ∧ (∃ aim, vector.aim source = .ok aim final) ∧
          Int64.maxValue.toInt < vector.high.toInt - vector.low.toInt)) ∧
    (vector.args ≠ [] → ∀ fault final, vector.aim source = .error fault final →
      fault = .endlessRejection) ∧
    ∀ (after : InputVector) final, vector.mutate source = .ok after final →
      (after.function = vector.function ∧ after.low = vector.low ∧ after.high = vector.high ∧
        after.args.length = vector.args.length) ∧
      (vector.args = [] → after = vector) ∧
      (vector.args ≠ [] → ∃ (i : Nat) (old moved : Int64), vector.args[i]? = some old ∧
        after.args[i]? = some moved ∧ (∀ j, j ≠ i → after.args[j]? = vector.args[j]?) ∧
        vector.low ≤ moved ∧ moved ≤ vector.high ∧
        (moved = old ↔ vector.low = old ∧ vector.high = old)) := by
  have hWide : ¬InRange (vector.high.toInt - vector.low.toInt) ↔
      Int64.maxValue.toInt < vector.high.toInt - vector.low.toInt := by
    have hMax : Int64.maxValue.toInt = 0x7fffffffffffffff := by decide
    rw [Int64.le_iff_toInt_le] at hBounds
    rw [InRange, hMax]
    omega
  by_cases hSome : vector.args = []
  · rw [mutate_of_nil hSome source]
    refine ⟨fun fault final => ⟨?_, fun h => absurd hSome h.1⟩, fun h => absurd hSome h, ?_⟩
    · rintro ⟨⟩
    · rintro _ _ ⟨⟩
      exact ⟨⟨rfl, rfl, rfl, rfl⟩, fun _ => rfl, fun h => absurd hSome h⟩
  have hDraws : Yields (· = .endlessRejection) (vector.aim : Draw ρ (Nat × Float)) _ :=
    yields_aim rfl hSome
  refine ⟨fun fault final => ?_, fun _ fault final hAim => hDraws.fault trivial hAim, ?_⟩
  · rw [mutate_eq_error_iff hBounds hSome, hWide]
    exact (and_iff_right hSome).symm
  · intro after final hRun
    obtain ⟨i, old, moved, hOld, rfl, hLow, hHigh, hStays⟩ := moves_of_mutate hBounds hSome hRun
    have hPlace := (List.getElem?_eq_some_iff.mp hOld).1
    refine ⟨⟨rfl, rfl, rfl, List.length_set⟩, fun hNone => absurd hNone hSome, fun _ => ?_⟩
    exact ⟨i, old, moved, hOld, List.getElem?_set_self hPlace,
      fun j hj => List.getElem?_set_ne hj.symm, hLow, hHigh, hStays⟩

end Runs

section Sample

def cornered : InputVector :=
  ⟨"f", [5], -5, 5⟩

/-- The bounds are as far apart as they can be. -/
def boundless : InputVector :=
  ⟨"f", [5], Int64.minValue, Int64.maxValue⟩

def upward : Replay :=
  .start [0, 0xf000000000000010] 0

theorem exists_aim_upward : ∃ aim final, boundless.aim upward = .ok aim final := by
  have hEnds : (match boundless.aim upward with
      | .ok _ _ => true
      | .error _ _ => false) = true := by
    decide +kernel
  cases hAim : boundless.aim upward with
  | ok aim final => exact ⟨aim, final, rfl⟩
  | error fault final =>
      rw [hAim] at hEnds
      cases hEnds

/-- A step up from the upper bound is taken back and becomes a step down. Without bounds the same
draws lead to a fault. -/
theorem mutate_moves_one_argument_cornered :
    (∃ after final, cornered.mutate upward = .ok after final ∧
      ∃ moved : Int64, after.args[0]? = some moved ∧ moved ≠ 5 ∧ -5 ≤ moved ∧ moved ≤ 5) ∧
    ∃ final, boundless.mutate upward = .error .subtractionOverflow final := by
  obtain ⟨aim, final, hAim⟩ := exists_aim_upward
  have hSame : cornered.aim upward = .ok aim final := hAim
  obtain ⟨hFault, -, hMoved⟩ :=
    mutate_moves_one_argument (by decide : cornered.low ≤ cornered.high) upward
  obtain ⟨hFault', -, -⟩ :=
    mutate_moves_one_argument (by decide : boundless.low ≤ boundless.high) upward
  refine ⟨?_, final, (hFault' _ _).mpr ⟨by decide, .inr ⟨rfl, ⟨aim, hAim⟩, by decide⟩⟩⟩
  cases hRun : cornered.mutate upward with
  | error fault last =>
      rcases (hFault fault last).mp hRun with ⟨-, hNone | ⟨-, -, hWide⟩⟩
      · cases hSame.symm.trans hNone
      · exact absurd hWide (by decide)
  | ok after last =>
      obtain ⟨i, old, moved, hOld, hNew, -, hLow, hHigh, hStays⟩ :=
        (hMoved after last hRun).2.2 (by decide)
      obtain ⟨rfl, rfl⟩ : i = 0 ∧ old = 5 := by
        cases i with
        | zero => exact ⟨rfl, (Option.some.inj hOld).symm⟩
        | succ i => cases hOld
      refine ⟨after, last, rfl, moved, hNew, fun hKept => ?_, hLow, hHigh⟩
      exact absurd (hStays.mp hKept).1 (by decide)

end Sample

end WitnessSearch.InputVector
