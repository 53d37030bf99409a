import WitnessSearch.InputVector.Factory
import WitnessSearch.Proofs.Evaluation.Faults
import WitnessSearch.Proofs.InputVectors.Mutation

/-! Argument vectors stay what the factory made them: calls of one function with a fixed number of
arguments, each of them between the bounds. Fresh vectors are so, and mutation and crossover keep
it. None of this goes wrong, but that a draw may have no end and that a suite may be so large that
there is no room for it. -/

namespace WitnessSearch

open Checked Draw

/-- A factory whose bounds are in order and not so far apart that the distance overflows. There is
room for the arguments of one test. -/
structure InputFactory.Proper (factory : InputFactory) : Prop where
  ordered : factory.low ≤ factory.high
  span : InRange (factory.high.toInt - factory.low.toInt)
  small : wordBytes * factory.arity ≤ listBytes

/-- A test that the factory may have made. -/
structure InputFactory.Makes (factory : InputFactory) (test : InputVector) : Prop where
  function : test.function = factory.function
  arity : test.args.length = factory.arity
  low : test.low = factory.low
  high : test.high = factory.high
  between : ∀ arg ∈ test.args, factory.low ≤ arg ∧ arg ≤ factory.high

variable {ρ : Type} {faults : Fault → Prop} {factory : InputFactory}

namespace InputFactory

/-- The tests of a proper factory have bounds whose difference fits, so their steps have a width. -/
theorem Makes.exists_stepWidth (hProper : factory.Proper) {test : InputVector}
    (h : factory.Makes test) : ∃ width, test.stepWidth = .ok width := by
  apply InputVector.exists_stepWidth
  rw [h.low, h.high]
  exact hProper.span

/-- The place that an argument moves to is between the bounds as well. -/
theorem Makes.set {test : InputVector} (h : factory.Makes test) {moved : Int64}
    (hMoved : factory.low ≤ moved ∧ moved ≤ factory.high) (i : Nat) :
    factory.Makes { test with args := test.args.set i moved } :=
  { h with
    arity := List.length_set.trans h.arity
    between := by
      intro arg hArg
      rcases List.mem_or_eq_of_mem_set hArg with hOld | rfl
      · exact h.between arg hOld
      · exact hMoved }

/-- What is before a cut in one vector and behind it in another makes a vector again. -/
theorem Makes.cross {first second : InputVector} (hFirst : factory.Makes first)
    (hSecond : factory.Makes second) (cut : Nat) :
    factory.Makes { first with args := first.args.take cut ++ second.args.drop cut } :=
  { hFirst with
    arity := by
      have hLeft := hFirst.arity
      have hRight := hSecond.arity
      simp only [List.length_append, List.length_take, List.length_drop]
      omega
    between := by
      intro arg hArg
      rcases List.mem_append.mp hArg with hTaken | hDropped
      · exact hFirst.between arg (List.mem_of_mem_take hTaken)
      · exact hSecond.between arg (List.mem_of_mem_drop hDropped) }

variable [RandomSource ρ] (hEndless : faults .endlessRejection) (hProper : factory.Proper)
include hEndless hProper

/-- A mutated test could have come from the same factory. -/
theorem yields_mutate {test : InputVector} (h : factory.Makes test) :
    Yields faults (test.mutate : Draw ρ InputVector) factory.Makes := by
  by_cases hSome : test.args = []
  · exact fun source _ => (InputVector.mutate_of_nil hSome source).symm ▸ ⟨h, trivial⟩
  have hBounds : test.low ≤ test.high := by
    rw [h.low, h.high]
    exact hProper.ordered
  have hSpan : InRange (test.high.toInt - test.low.toInt) := by
    rw [h.low, h.high]
    exact hProper.span
  rw [InputVector.mutate_eq hSome]
  refine Guards.bind (InputVector.yields_aim hEndless hSome) fun aim hPlace => ?_
  refine (InputVector.yields_land hBounds hSpan hPlace aim.2).weaken ?_
  rintro _ ⟨_, moved, -, rfl, hLow, hHigh, -⟩
  rw [h.low] at hLow
  rw [h.high] at hHigh
  exact h.set ⟨hLow, hHigh⟩ aim.1

omit hProper in
/-- Two tests of one factory cross into two more of its tests. -/
theorem yields_crossover {first second : InputVector} (hFirst : factory.Makes first)
    (hSecond : factory.Makes second) :
    Yields faults (first.crossover second : Draw ρ (Crossing InputVector)) fun crossing =>
      crossing.failure = none → factory.Makes crossing.first ∧ factory.Makes crossing.second := by
  unfold InputVector.crossover
  split
  · exact Guards.pure nofun
  split
  · exact Guards.pure nofun
  have hCut : ∀ cut, Yields faults (pure ⟨
      { first with args := first.args.take cut ++ second.args.drop cut },
      { second with args := second.args.take cut ++ first.args.drop cut }, none⟩ :
        Draw ρ (Crossing InputVector)) fun crossing =>
      crossing.failure = none → factory.Makes crossing.first ∧ factory.Makes crossing.second :=
    fun cut => Guards.pure fun _ => ⟨hFirst.cross hSecond cut, hSecond.cross hFirst cut⟩
  dsimp only
  split
  · rename_i hSeveral
    have hPositive : 0 < first.args.length - 1 := Nat.sub_pos_of_lt hSeveral
    refine Guards.bind (?_ : Yields faults _ fun _ => True) fun cut _ => hCut cut
    exact Guards.bind (yields_below hEndless hPositive) fun _ _ => Guards.pure trivial
  · exact hCut 0

/-- A factory draws tests that it makes, with every argument within the bounds. -/
theorem yields_randomTest :
    Yields faults (factory.randomTest : Draw ρ InputVector) factory.Makes := by
  refine Confines.ofExcept_bind (reserve_eq_ok_iff.mpr hProper.small) ?_
  have hArgs : Yields faults ((List.replicate factory.arity ()).mapM fun _ =>
      (Draw.between factory.low factory.high : Draw ρ Int64))
      (List.Forall₂ (fun _ arg => factory.low ≤ arg ∧ arg ≤ factory.high)
        (List.replicate factory.arity ())) :=
    Guards.mapM fun _ _ => yields_between hEndless hProper.ordered
  refine Guards.bind hArgs fun args hArgs => ?_
  rw [InputVector.make, if_neg (Int64.not_lt.mpr hProper.ordered)]
  refine Guards.pure ⟨rfl, ?_, rfl, rfl, fun arg hArg => ?_⟩
  · rw [← hArgs.length_eq, List.length_replicate]
  · obtain ⟨_, -, hBetween⟩ := exists_left_of_related hArgs hArg
    exact hBetween

/-- A fresh candidate consists of tests that the factory makes. A suite may be too large. -/
theorem yields_random (hFull : faults .capacityOverflow) (hSize : factory.suiteSize ≠ some 0) :
    Yields faults (factory.random : Draw ρ (Chromosome InputVector))
      (Chromosome.Wholly factory.Makes) := by
  have hTest : Yields faults (factory.randomTest : Draw ρ InputVector) factory.Makes :=
    yields_randomTest hEndless hProper
  unfold random
  split
  · exact Guards.bind hTest fun test hMade => Guards.pure (List.forall_mem_singleton.mpr hMade)
  · rename_i limit hSuites
    have hPositive : 0 < limit := Nat.pos_of_ne_zero fun hZero => hSize (hZero ▸ hSuites)
    refine Guards.bind (yields_below hEndless hPositive) fun chosen _ => ?_
    refine Guards.bind (Guards.ofExcept fun fault _ hFault _ => ?_) fun _ _ => ?_
    · obtain ⟨-, rfl⟩ := of_reserve_eq_error hFault
      exact hFull
    have hTests : Yields faults ((List.replicate (chosen + 1) ()).mapM fun _ =>
        (factory.randomTest : Draw ρ InputVector))
        (List.Forall₂ (fun _ => factory.Makes) (List.replicate (chosen + 1) ())) :=
      Guards.mapM fun _ _ => hTest
    refine Guards.bind hTests fun tests hMade => Guards.pure fun test hMem => ?_
    obtain ⟨_, -, hTest⟩ := exists_left_of_related hMade hMem
    exact hTest

end InputFactory

end WitnessSearch
