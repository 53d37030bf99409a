import WitnessSearch.Proofs.Evaluation.Faults
import WitnessSearch.Proofs.Subject.Traces
import WitnessSearch.Subject.Executor

/-! What the executor of a subject answers. An execution of a candidate has a finite distance, its
observation has the width of the goal's capture point, and it equals itself. A candidate whose tests
are inputs of the subject is always executed: it is not turned down and no arithmetic overflows. -/

namespace WitnessSearch

open Checked FloatRounding

/-- An execution fits, and its observation equals itself. -/
structure Execution.Sane (arity : Nat) (execution : Execution) : Prop
    extends execution.Fits arity where
  reflexive : (execution.observation.getD .empty == execution.observation.getD .empty) = true

/-- A positive and finite fitness makes an execution that is not covered. -/
theorem Execution.exists_uncovered {fitness : Float} (hFinite : fitness.isFinite = true)
    (hPositive : 0.0 < fitness) (arity : Nat) :
    ∃ execution, Execution.uncovered fitness = .ok execution ∧ execution.Sane arity := by
  rw [Execution.uncovered, if_pos hPositive]
  refine ⟨_, rfl, ⟨hFinite, fun hNegative => ?_, fun hMet => ?_⟩, rfl⟩
  · exact FloatOrder.not_lt_of_le (FloatOrder.le_iff_lt_or_beq.mpr (.inl hPositive)) hNegative
  · exact absurd hPositive (FloatOrder.not_lt_of_le (FloatOrder.le_iff_lt_or_beq.mpr (.inr hMet)))

theorem Observation.beq_ofInts (values : List Int64) :
    (Observation.ofInts values == Observation.ofInts values) = true := by
  change ((values.map fun value => Float.ofInt value.toInt) == _) = true
  induction values with
  | nil => rfl
  | cons value values ih =>
      have hNumber := isNaN_ofInt value.toInt
      have hSame : (Float.ofInt value.toInt == Float.ofInt value.toInt) = true :=
        FloatOrder.beq_of_not_lt hNumber hNumber (FloatOrder.lt_irrefl hNumber)
          (FloatOrder.lt_irrefl hNumber)
      change (_ :: _ == _ :: _) = true
      rw [List.cons_beq_cons, hSame, Bool.true_and]
      exact ih

theorem Execution.sane_covered (values : List Int64) :
    (Execution.covered (some (.ofInts values))).Sane values.length where
  finite := hasValue_zero.isFinite
  nonneg := FloatOrder.lt_irrefl hasValue_zero.isNaN
  arity _ := List.length_map _
  reflexive := Observation.beq_ofInts values

namespace Subject

/-- The fitness of a run that misses a point lies between one and two. -/
theorem exists_value_missFitness {distance : Option Float}
    (h : ∀ slack ∈ distance, Within 100 slack) :
    ∃ v, HasValue (missFitness distance) v ∧ 1 ≤ v ∧ v ≤ 2 := by
  cases distance with
  | none => exact ⟨2, hasValue_two, one_le_two, le_rfl⟩
  | some slack => exact exists_value_share (h slack rfl) (by decide)

variable {width : String → Nat}

/-- A regular trace is measured for every goal, with a sane execution. -/
theorem exists_measure {trace : Trace} (h : trace.Regular width) (goal : Goal) :
    ∃ execution, measure trace goal = .ok execution ∧ execution.Sane (width goal.id) := by
  unfold measure
  split
  · rename_i values hFirst
    rw [← h.firstCapture hFirst]
    exact ⟨_, rfl, Execution.sane_covered values⟩
  · obtain ⟨v, hValue, hLow, -⟩ := exists_value_missFitness fun _ hBest => h.bestDistance hBest
    have hPositive := (hasValue_zero.lt_iff hValue).mpr (zero_lt_one.trans_le hLow)
    exact Execution.exists_uncovered hValue.isFinite hPositive _

/-- A test that can be run: as many arguments as the subject takes, all in the range that inputs are
drawn from. -/
def Accepts (subject : Subject) (test : InputVector) : Prop :=
  test.args.length = subject.arity ∧ subject.Admits test.args

/-- What is answered for tests that may be known to be safe to run. -/
def Acceptable (safe : Prop) (arity : Nat) : Except ExecutionFailure Execution → Prop
  | .ok execution => execution.Sane arity
  | .error _ => ¬safe

variable {subject : Subject} (h : subject.Tame width)
include h

/-- A run on arguments in the range of inputs comes to its end. -/
theorem exists_run {test : InputVector} (hTest : subject.Accepts test) :
    ∃ trace, subject.run test.args = .ok trace := by
  obtain ⟨trace, hRun, -⟩ := Answers.exists_answer (h.body test.args hTest.1) hTest.2
  exact ⟨trace, by rw [run, if_pos hTest.1, hRun]⟩

/-- A test is run or refused. Within the domain it is run, and its trace is regular. -/
theorem answers_runTest {safe : Prop} {test : InputVector} (hSafe : safe → subject.Accepts test) :
    Answers safe (subject.runTest test) fun
      | .ok trace => trace.Regular width
      | .error _ => ¬safe := by
  unfold runTest
  split
  · rename_i hLength
    rw [run, if_pos hLength]
    have hBody := h.body test.args hLength
    cases hRun : subject.body test.args with
    | ok trace =>
        rw [hRun] at hBody
        exact hBody
    | error fault =>
        rw [hRun] at hBody
        exact fun hIs => hBody (hSafe hIs).2
  · rename_i hLength
    exact fun hIs => hLength (hSafe hIs).1

/-- Running the tests of a suite gives a sane execution, or an error where the domain was left. -/
theorem answers_executeTests {safe : Prop} (goal : Goal) {tests : List InputVector}
    (hSafe : safe → ∀ test ∈ tests, subject.Accepts test) {best : Option Execution}
    (hBest : ∀ execution ∈ best, execution.Sane (width goal.id)) :
    Answers safe (executeTests subject goal best tests) (Acceptable safe (width goal.id)) := by
  induction tests generalizing best with
  | nil =>
      cases best with
      | some execution => exact hBest execution rfl
      | none =>
          obtain ⟨execution, hUnguided, hSane⟩ := @Execution.exists_uncovered unguidedFitness
            (by decide) (by decide) (width goal.id)
          rw [executeTests, hUnguided]
          exact hSane
  | cons test rest ih =>
      have hLater : safe → ∀ test ∈ rest, subject.Accepts test :=
        fun hIs other hMem => hSafe hIs other (List.mem_cons_of_mem _ hMem)
      refine Answers.bind (answers_runTest h fun hIs => hSafe hIs test List.mem_cons_self)
        fun answer hAnswer => ?_
      cases answer with
      | error failure => exact hAnswer
      | ok trace =>
          obtain ⟨execution, hMeasured, hSane⟩ := exists_measure hAnswer goal
          simp only [hMeasured]
          change Answers safe (if execution.isCovered = true then _ else _) _
          split
          · exact hSane
          · have hNext : ∀ better : Bool, ∀ kept ∈ if better then some execution else best,
                kept.Sane (width goal.id) := by
              intro better kept hKept
              cases better with
              | true => exact Option.some.inj hKept ▸ hSane
              | false => exact hBest kept hKept
            exact ih hLater (hNext _)

/-- What the executor answers for a candidate can be compared with any other answer for the goal. -/
theorem sane_of_execute {chromosome : Chromosome InputVector} {goal : Goal} {execution : Execution}
    (hAnswer : subject.executor.execute chromosome goal = .ok (.ok execution)) :
    execution.Sane (width goal.id) :=
  Answers.of_eq_ok (answers_executeTests h goal (fun hNever : False => hNever.elim)
    fun _ hNone => absurd hNone (Option.not_mem_none _)) hAnswer

/-- A candidate that consists of inputs of the subject is executed. -/
theorem exists_execute {chromosome : Chromosome InputVector}
    (hTests : chromosome.Wholly subject.Accepts) (goal : Goal) :
    ∃ execution, subject.executor.execute chromosome goal = .ok (.ok execution) := by
  obtain ⟨answer, hAnswer, hAcceptable⟩ := Answers.exists_answer
    (answers_executeTests h goal (fun _ : True => hTests)
      fun _ hNone => absurd hNone (Option.not_mem_none _)) trivial
  cases answer with
  | ok execution => exact ⟨execution, hAnswer⟩
  | error failure => exact absurd trivial hAcceptable

end Subject

end WitnessSearch
