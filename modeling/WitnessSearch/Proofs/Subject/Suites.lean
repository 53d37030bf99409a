import WitnessSearch.Proofs.Float.Identity
import WitnessSearch.Proofs.Subject.Executions

/-! How a suite scores. The first test that cannot be run or that reaches the point of the goal
settles what the executor answers, and the tests behind it are not run. Where no test does, the
suite is as good as its best one. So the order of tests does not matter for the fitness of a suite,
and a suite that gets more tests does not get worse. -/

namespace WitnessSearch

open Checked FloatRounding

theorem Execution.isCovered_covered (observation : Option Observation) :
    (covered observation).isCovered = true := by
  change (0.0 == 0.0) = true
  decide

/-- An execution with a positive fitness misses its goal. -/
theorem Execution.isCovered_of_pos {fitness : Float} (h : 0.0 < fitness)
    (observation : Option Observation) :
    (⟨fitness, observation⟩ : Execution).isCovered = false := by
  by_contra hCovered
  have hZero : (fitness == 0.0) = true := eq_true_of_ne_false hCovered
  exact FloatOrder.not_lt_of_le (FloatOrder.le_iff_lt_or_beq.mpr (.inr hZero)) h

namespace Subject

section Outcomes

variable (subject : Subject) (goal : Goal)

/-- A test is run, with the right number of arguments and without an overflow. -/
def Runs (test : InputVector) : Prop :=
  ∃ trace, subject.run test.args = .ok trace

/-- Whether the run of a test reaches the point of a goal. -/
def reaches (test : InputVector) : Bool :=
  match subject.run test.args with
  | .ok trace => trace.hit goal.id
  | .error _ => false

/-- Whether a test settles what is answered for its suite: it has a wrong number of arguments, or it
reaches the point of the goal. -/
def settles (test : InputVector) : Bool :=
  test.args.length ≠ subject.arity || subject.reaches goal test

/-- What is said of a test with a wrong number of arguments. -/
def refusal (test : InputVector) : ExecutionFailure :=
  .failed (subject.function ++ " takes " ++ subject.arity.repr ++ " arguments, got " ++
    test.args.length.repr)

/-- The run of a test misses the point of a goal with a fitness. -/
def Misses (test : InputVector) (fitness : Float) : Prop :=
  ∃ trace, subject.run test.args = .ok trace ∧ trace.hit goal.id = false ∧
    fitness = missFitness (trace.bestDistance goal.id)

/-- The least fitness that tests miss a goal with. It is that of an unguided run if there are no
tests. -/
structure Lowest (tests : List InputVector) (fitness : Float) : Prop where
  empty : tests = [] → fitness = unguidedFitness
  attained : tests ≠ [] → ∃ test ∈ tests, subject.Misses goal test fitness
  least : ∀ test ∈ tests, ∀ other, subject.Misses goal test other → fitness ≤ other

def Covers (chromosome : Chromosome InputVector) : Prop :=
  ∃ execution, subject.executor.execute chromosome goal = .ok (.ok execution) ∧
    execution.isCovered = true

/-- What is answered for tests: a refusal or the first capture of the test that settles the matter,
or the lowest fitness if no test does. -/
inductive Scored (tests : List InputVector) : Except ExecutionFailure Execution → Prop
  | refused {test : InputVector} (first : tests.find? (subject.settles goal) = some test)
      (arity : test.args.length ≠ subject.arity) : Scored tests (.error (subject.refusal test))
  | met {test : InputVector} {trace : Trace} {values : List Int64}
      (first : tests.find? (subject.settles goal) = some test)
      (run : subject.run test.args = .ok trace)
      (capture : trace.firstCapture goal.id = some values) :
      Scored tests (.ok (.covered (some (.ofInts values))))
  | missed {fitness : Float} (unsettled : tests.find? (subject.settles goal) = none)
      (lowest : subject.Lowest goal tests fitness) : Scored tests (.ok ⟨fitness, none⟩)

end Outcomes

variable {subject : Subject} {goal : Goal} {test : InputVector} {tests : List InputVector}

/-- Only arguments of the right number are run. -/
theorem length_of_run {args : List Int64} {trace : Trace} (h : subject.run args = .ok trace) :
    args.length = subject.arity := by
  unfold run at h
  split at h
  · assumption
  · cases h

theorem runTest_of_run {trace : Trace} (h : subject.run test.args = .ok trace) :
    subject.runTest test = .ok (.ok trace) := by
  rw [runTest, if_pos (length_of_run h), h]
  rfl

theorem reaches_of_run {trace : Trace} (h : subject.run test.args = .ok trace) :
    subject.reaches goal test = trace.hit goal.id := by
  rw [reaches, h]

theorem settles_of_run {trace : Trace} (h : subject.run test.args = .ok trace) :
    subject.settles goal test = trace.hit goal.id := by
  simp [settles, length_of_run h, reaches_of_run h]

theorem Misses.settles {fitness : Float} (h : subject.Misses goal test fitness) :
    subject.settles goal test = false := by
  obtain ⟨trace, hRun, hMiss, -⟩ := h
  rw [settles_of_run hRun, hMiss]

/-- A test misses a goal by one fitness only. -/
theorem Misses.unique {fitness other : Float} (h : subject.Misses goal test fitness)
    (hOther : subject.Misses goal test other) : fitness = other := by
  obtain ⟨trace, hRun, -, rfl⟩ := h
  obtain ⟨trace', hRun', -, rfl⟩ := hOther
  cases hRun.symm.trans hRun'
  rfl

section Steps

variable (best : Option Execution) (rest : List InputVector)

/-- The first test with a wrong number of arguments ends the suite with its refusal. -/
theorem executeTests_of_length (h : test.args.length ≠ subject.arity) :
    executeTests subject goal best (test :: rest) = .ok (.error (subject.refusal test)) := by
  simp only [executeTests, runTest, if_neg h]
  rfl

/-- The first test that hits the goal ends the suite with what it captured. -/
theorem executeTests_of_capture {trace : Trace} {values : List Int64}
    (hRun : subject.run test.args = .ok trace)
    (hCapture : trace.firstCapture goal.id = some values) :
    executeTests subject goal best (test :: rest) =
      .ok (.ok (.covered (some (.ofInts values)))) := by
  have hMeasured : measure trace goal = .ok (.covered (some (.ofInts values))) := by
    simp only [measure, hCapture]
  simp only [executeTests, runTest_of_run hRun, ok_bind, hMeasured, Execution.isCovered_covered]
  rfl

end Steps

/-- The better of an execution and the best one so far. The earlier one wins a tie. -/
def keep (execution : Execution) : Option Execution → Execution
  | none => execution
  | some best => if execution.fitness < best.fitness then execution else best

/-- A test that misses the goal is kept if it is better than the best so far, and the others follow.
-/
theorem executeTests_of_miss (best : Option Execution) (rest : List InputVector) {fitness : Float}
    (h : subject.Misses goal test fitness) (hPositive : 0.0 < fitness) :
    executeTests subject goal best (test :: rest) =
      executeTests subject goal (some (keep ⟨fitness, none⟩ best)) rest := by
  obtain ⟨trace, hRun, hMiss, rfl⟩ := h
  have hCapture : trace.firstCapture goal.id = none := by
    simpa [Trace.hit_eq_isSome] using hMiss
  have hMeasured : measure trace goal = .ok ⟨missFitness (trace.bestDistance goal.id), none⟩ := by
    simp only [measure, hCapture, Execution.uncovered, if_pos hPositive]
  simp only [executeTests, runTest_of_run hRun, ok_bind, hMeasured,
    Execution.isCovered_of_pos hPositive]
  cases best with
  | none => rfl
  | some best =>
      simp only [keep, Bool.false_eq_true, if_false, decide_eq_true_eq]
      split <;> rfl

/-- The tests run so far settle nothing, so the next one that does is the first one. -/
theorem find?_settles {done rest : List InputVector}
    (hDone : ∀ test ∈ done, subject.settles goal test = false)
    (hTest : subject.settles goal test = true) :
    (done ++ test :: rest).find? (subject.settles goal) = some test := by
  rw [List.find?_append, List.find?_eq_none.mpr fun test hMem => by simp [hDone test hMem],
    Option.none_or, List.find?_cons_of_pos hTest]

section Lowest

variable {width : String → Nat} (hTame : subject.Tame width)
include hTame

/-- A miss has a fitness between one and two. -/
theorem Misses.exists_value {fitness : Float} (h : subject.Misses goal test fitness) :
    ∃ v, HasValue fitness v ∧ 1 ≤ v ∧ v ≤ 2 := by
  obtain ⟨trace, hRun, -, rfl⟩ := h
  have hRegular := Answers.of_eq_ok (answers_runTest hTame (fun h : False => h.elim))
    (runTest_of_run hRun)
  exact exists_value_missFitness fun _ hBest => hRegular.bestDistance hBest

theorem Misses.pos {fitness : Float} (h : subject.Misses goal test fitness) : 0.0 < fitness := by
  obtain ⟨v, hValue, hLow, -⟩ := h.exists_value hTame
  exact (hasValue_zero.lt_iff hValue).mpr (zero_lt_one.trans_le hLow)

theorem Lowest.exists_value {fitness : Float} (h : subject.Lowest goal tests fitness) :
    ∃ v, HasValue fitness v ∧ 1 ≤ v ∧ v ≤ 2 := by
  by_cases hEmpty : tests = []
  · rw [h.empty hEmpty]
    exact ⟨2, hasValue_two, one_le_two, le_rfl⟩
  · obtain ⟨test, -, hMisses⟩ := h.attained hEmpty
    exact hMisses.exists_value hTame

/-- The lowest fitness of tests and of one more. -/
theorem Lowest.concat {best fitness : Float} (h : subject.Lowest goal tests best)
    (hTests : tests ≠ []) (hMisses : subject.Misses goal test fitness) :
    subject.Lowest goal (tests ++ [test]) (if fitness < best then fitness else best) := by
  obtain ⟨v, hBest, -, -⟩ := h.exists_value hTame
  obtain ⟨w, hNew, -, -⟩ := hMisses.exists_value hTame
  refine ⟨fun hEmpty => by simp at hEmpty, fun _ => ?_, fun other hMem fitness' hOther => ?_⟩
  · split
    · exact ⟨test, by simp, hMisses⟩
    · obtain ⟨held, hHeld, hAttained⟩ := h.attained hTests
      exact ⟨held, by simp [hHeld], hAttained⟩
  · obtain ⟨u, hValue, -, -⟩ := hOther.exists_value hTame
    have hKnown : other ∈ tests → v ≤ u := fun hOld =>
      (hBest.le_iff hValue).mp (h.least other hOld _ hOther)
    have hLast : other = test → w ≤ u := by
      intro hIs
      rw [hIs] at hOther
      rw [← hNew.le_iff hValue, hMisses.unique hOther]
      exact (hValue.le_iff hValue).mpr le_rfl
    have hMember : other ∈ tests ∨ other = test := by simpa using hMem
    split
    · rename_i hLess
      rw [hNew.lt_iff hBest] at hLess
      exact (hNew.le_iff hValue).mpr (hMember.elim (fun hOld => hLess.le.trans (hKnown hOld)) hLast)
    · rename_i hNotLess
      rw [hNew.lt_iff hBest, not_lt] at hNotLess
      exact (hBest.le_iff hValue).mpr
        (hMember.elim hKnown fun hIs => hNotLess.trans (hLast hIs))

theorem lowest_singleton {fitness : Float} (h : subject.Misses goal test fitness) :
    subject.Lowest goal [test] fitness := by
  obtain ⟨v, hValue, -, -⟩ := h.exists_value hTame
  refine ⟨nofun, fun _ => ⟨test, by simp, h⟩, fun other hMem fitness' hOther => ?_⟩
  rw [List.mem_singleton.mp hMem] at hOther
  rw [← h.unique hOther]
  exact (hValue.le_iff hValue).mpr le_rfl

/-- The best execution so far has the lowest fitness of the tests that were run. -/
def Stands (subject : Subject) (goal : Goal) (tests : List InputVector) : Option Execution → Prop
  | none => tests = []
  | some best => tests ≠ [] ∧ best.observation = none ∧ subject.Lowest goal tests best.fitness

/-- After one more miss, the better one stands for all of them. -/
theorem Stands.keep {best : Option Execution} {fitness : Float}
    (h : subject.Stands goal tests best) (hMisses : subject.Misses goal test fitness) :
    subject.Stands goal (tests ++ [test]) (some (Subject.keep ⟨fitness, none⟩ best)) := by
  have hNonempty : tests ++ [test] ≠ [] := by simp
  cases best with
  | none =>
      obtain rfl : tests = [] := h
      exact ⟨hNonempty, rfl, lowest_singleton hTame hMisses⟩
  | some best =>
      obtain ⟨hTests, hNone, hLowest⟩ := h
      have hNext := hLowest.concat hTame hTests hMisses
      change subject.Stands goal _ (some (if fitness < best.fitness then _ else _))
      by_cases hLess : fitness < best.fitness
      · rw [if_pos hLess] at hNext ⊢
        exact ⟨hNonempty, rfl, hNext⟩
      · rw [if_neg hLess] at hNext ⊢
        exact ⟨hNonempty, hNone, hNext⟩

/-- The executor answers for tests, given the best execution of those in front of them that were run
before. A test is counted among the latter only if it settles nothing, so at every step what is
decisive is still to come. -/
theorem exists_scored {done : List InputVector} {best : Option Execution}
    (hDone : ∀ test ∈ done, subject.settles goal test = false)
    (hBest : subject.Stands goal done best)
    (hRuns : ∀ test ∈ tests, test.args.length = subject.arity → subject.Runs test) :
    ∃ answer, executeTests subject goal best tests = .ok answer ∧
      subject.Scored goal (done ++ tests) answer := by
  induction tests generalizing done best with
  | nil =>
      have hNone : (done ++ []).find? (subject.settles goal) = none :=
        List.find?_eq_none.mpr fun test hMem => by simp [hDone test (by simpa using hMem)]
      cases best with
      | none =>
          obtain rfl : done = [] := hBest
          refine ⟨_, rfl, .missed hNone ⟨fun _ => rfl, fun hEmpty => absurd rfl hEmpty, nofun⟩⟩
      | some best =>
          obtain ⟨-, hObservation, hLowest⟩ := hBest
          obtain ⟨fitness, observation⟩ := best
          obtain rfl : observation = none := hObservation
          refine ⟨_, rfl, .missed hNone ?_⟩
          rwa [List.append_nil]
  | cons test rest ih =>
      by_cases hLength : test.args.length = subject.arity
      · obtain ⟨trace, hRun⟩ := hRuns test List.mem_cons_self hLength
        cases hCapture : trace.firstCapture goal.id with
        | some values =>
            have hSettles : subject.settles goal test = true := by
              rw [settles_of_run hRun, Trace.hit_eq_isSome, hCapture, Option.isSome_some]
            exact ⟨_, executeTests_of_capture best rest hRun hCapture,
              .met (find?_settles hDone hSettles) hRun hCapture⟩
        | none =>
            have hMisses : subject.Misses goal test (missFitness (trace.bestDistance goal.id)) :=
              ⟨trace, hRun, by rw [Trace.hit_eq_isSome, hCapture, Option.isSome_none], rfl⟩
            have hMore : ∀ other ∈ done ++ [test], subject.settles goal other = false := by
              intro other hMem
              rcases List.mem_append.mp hMem with hOld | hNew
              · exact hDone other hOld
              · rw [List.mem_singleton.mp hNew]
                exact hMisses.settles
            rw [executeTests_of_miss best rest hMisses (hMisses.pos hTame), List.append_cons]
            exact ih hMore (hBest.keep hTame hMisses)
              fun other hMem => hRuns other (List.mem_cons_of_mem _ hMem)
      · have hSettles : subject.settles goal test = true := by simp [settles, hLength]
        exact ⟨_, executeTests_of_length best rest hLength,
          .refused (find?_settles hDone hSettles) hLength⟩

end Lowest

/-- A suite ends with an error exactly if the first test that settles it has a wrong number of
arguments. -/
theorem Scored.error_iff {answer : Except ExecutionFailure Execution}
    (h : subject.Scored goal tests answer) :
    (∃ failure, answer = .error failure) ↔
      ∃ test, tests.find? (subject.settles goal) = some test ∧
        test.args.length ≠ subject.arity := by
  cases h with
  | refused first arity => simp [first, arity]
  | met first run => simp [first, length_of_run run]
  | missed unsettled => simp [unsettled]

section Laws

variable {width : String → Nat} (hTame : subject.Tame width)
include hTame

theorem Lowest.pos {fitness : Float} (h : subject.Lowest goal tests fitness) : 0.0 < fitness := by
  obtain ⟨v, hValue, hLow, -⟩ := h.exists_value hTame
  exact (hasValue_zero.lt_iff hValue).mpr (zero_lt_one.trans_le hLow)

/-- More tests have no larger lowest fitness. -/
theorem Lowest.le_of_subset {other : List InputVector} {fitness least : Float}
    (h : subject.Lowest goal tests fitness) (hOther : subject.Lowest goal other least)
    (hSubset : tests ⊆ other) : least ≤ fitness := by
  by_cases hEmpty : tests = []
  · obtain ⟨v, hValue, -, hHigh⟩ := hOther.exists_value hTame
    rw [h.empty hEmpty]
    exact (hValue.le_iff hasValue_two).mpr hHigh
  · obtain ⟨test, hMem, hMisses⟩ := h.attained hEmpty
    exact hOther.least test (hSubset hMem) _ hMisses

/-- The order of the tests does not matter to the lowest fitness. Equal values are equal doubles
here, as a miss has a positive fitness and so none is a zero with a sign. -/
theorem Lowest.eq_of_perm {other : List InputVector} {fitness least : Float}
    (h : subject.Lowest goal tests fitness) (hOther : subject.Lowest goal other least)
    (hPerm : tests.Perm other) : fitness = least := by
  obtain ⟨v, hV, hLow, -⟩ := h.exists_value hTame
  obtain ⟨w, hW, -, -⟩ := hOther.exists_value hTame
  have hLe := (hV.le_iff hW).mp (hOther.le_of_subset hTame h hPerm.symm.subset)
  have hGe := (hW.le_iff hV).mp (h.le_of_subset hTame hOther hPerm.subset)
  obtain rfl := hLe.antisymm hGe
  exact hV.eq_of_pos hW (zero_lt_one.trans_le hLow)

/-- A suite whose tests can be run is always scored. -/
theorem exists_scored_execute (goal : Goal) {chromosome : Chromosome InputVector}
    (hRuns : ∀ test ∈ chromosome.tests, test.args.length = subject.arity → subject.Runs test) :
    ∃ answer, subject.executor.execute chromosome goal = .ok answer ∧
      subject.Scored goal chromosome.tests answer := by
  have hNone : subject.Stands goal [] none := rfl
  have hDone : ∀ test ∈ ([] : List InputVector), subject.settles goal test = false := nofun
  exact exists_scored hTame hDone hNone hRuns

/-- Tests that are run are not refused. -/
theorem exists_execution (goal : Goal) (hRuns : ∀ test ∈ tests, subject.Runs test) :
    ∃ execution, subject.executor.execute (.suite tests) goal = .ok (.ok execution) ∧
      subject.Scored goal tests (.ok execution) := by
  have hSuite : ∀ test ∈ (Chromosome.suite tests).tests, test.args.length = subject.arity →
      subject.Runs test :=
    fun test hMem _ => hRuns test hMem
  obtain ⟨answer, hAnswer, hScored⟩ := exists_scored_execute hTame goal hSuite
  cases hScored with
  | refused first arity =>
      obtain ⟨trace, hRun⟩ := hRuns _ (List.mem_of_find?_eq_some first)
      exact absurd (length_of_run hRun) arity
  | met first run capture => exact ⟨_, hAnswer, .met first run capture⟩
  | missed unsettled lowest => exact ⟨_, hAnswer, .missed unsettled lowest⟩

/-- A suite covers a goal exactly if one of its tests does. -/
theorem Scored.isCovered_iff {execution : Execution}
    (h : subject.Scored goal tests (.ok execution)) :
    execution.isCovered = true ↔ ∃ test ∈ tests, subject.settles goal test = true := by
  cases h with
  | met first =>
      simp only [Execution.isCovered_covered, true_iff]
      exact ⟨_, List.mem_of_find?_eq_some first, List.find?_some first⟩
  | missed unsettled lowest =>
      rw [Execution.isCovered_of_pos (lowest.pos hTame)]
      simpa using unsettled

/-- What more tests do to what is answered. -/
theorem Scored.le_of_subset {other : List InputVector} {execution later : Execution}
    (h : subject.Scored goal tests (.ok execution)) (hOther : subject.Scored goal other (.ok later))
    (hSubset : tests ⊆ other) : later.fitness ≤ execution.fitness := by
  cases hOther with
  | met =>
      cases h with
      | met => exact (hasValue_zero.le_iff hasValue_zero).mpr le_rfl
      | missed _ lowest => exact FloatOrder.le_iff_lt_or_beq.mpr (.inl (lowest.pos hTame))
  | missed unsettled least =>
      cases h with
      | met first =>
          have hNot := List.find?_eq_none.mp unsettled _ (hSubset (List.mem_of_find?_eq_some first))
          exact absurd (List.find?_some first) hNot
      | missed _ lowest => exact lowest.le_of_subset hTame least hSubset

/-- Two suites of the same tests have the same fitness, in whatever order these are run. -/
theorem Scored.fitness_eq_of_perm {other : List InputVector} {execution later : Execution}
    (h : subject.Scored goal tests (.ok execution)) (hOther : subject.Scored goal other (.ok later))
    (hPerm : tests.Perm other) : execution.fitness = later.fitness := by
  have hCovered : execution.isCovered = later.isCovered := by
    rw [Bool.eq_iff_iff, h.isCovered_iff hTame, hOther.isCovered_iff hTame]
    simp only [hPerm.mem_iff]
  cases h with
  | met =>
      cases hOther with
      | met => rfl
      | missed _ least =>
          rw [Execution.isCovered_covered, Execution.isCovered_of_pos (least.pos hTame)] at hCovered
          cases hCovered
  | missed _ lowest =>
      cases hOther with
      | met =>
          rw [Execution.isCovered_covered,
            Execution.isCovered_of_pos (lowest.pos hTame)] at hCovered
          cases hCovered
      | missed _ least => exact lowest.eq_of_perm hTame least hPerm

/-- A goal that is met is met in the same way when tests are added behind. -/
theorem Scored.eq_of_append {more : List InputVector} {execution later : Execution}
    (h : subject.Scored goal tests (.ok execution))
    (hMore : subject.Scored goal (tests ++ more) (.ok later))
    (hCovered : execution.isCovered = true) : later = execution := by
  cases h with
  | missed _ lowest =>
      rw [Execution.isCovered_of_pos (lowest.pos hTame)] at hCovered
      cases hCovered
  | @met test trace values first run capture =>
      have hFirst : (tests ++ more).find? (subject.settles goal) = some test := by
        rw [List.find?_append, first, Option.some_or]
      cases hMore with
      | missed unsettled =>
          rw [hFirst] at unsettled
          cases unsettled
      | met first' run' capture' =>
          cases hFirst.symm.trans first'
          cases run.symm.trans run'
          cases capture.symm.trans capture'
          rfl

/-- A suite covers a goal exactly if a test of it settles the goal. -/
theorem covers_iff_settles (hRuns : ∀ test ∈ tests, subject.Runs test) :
    subject.Covers goal (.suite tests) ↔ ∃ test ∈ tests, subject.settles goal test = true := by
  obtain ⟨execution, hAnswer, hScored⟩ := exists_execution hTame goal hRuns
  rw [← hScored.isCovered_iff hTame]
  constructor
  · intro ⟨other, hOther, hCovered⟩
    cases hAnswer.symm.trans hOther
    exact hCovered
  · intro hCovered
    exact ⟨execution, hAnswer, hCovered⟩

/-- A suite meets a goal exactly when one of its tests does by itself. -/
theorem covers_suite_iff (hRuns : ∀ test ∈ tests, subject.Runs test) :
    subject.Covers goal (.suite tests) ↔ ∃ test ∈ tests, subject.Covers goal (.single test) := by
  rw [covers_iff_settles hTame hRuns]
  refine exists_congr fun test => and_congr_right fun hMem => ?_
  have hRun : ∀ other ∈ [test], subject.Runs other := fun other hOther =>
    List.mem_singleton.mp hOther ▸ hRuns test hMem
  have hSingle : subject.Covers goal (.single test) ↔
      ∃ other ∈ [test], subject.settles goal other = true := covers_iff_settles hTame hRun
  rw [hSingle]
  simp

end Laws

/-- What the executor answers for a candidate whose tests do not overflow. The first test that has a
wrong number of arguments or reaches the point of the goal is decisive: the wrong number is the only
reason to refuse a candidate, and at the point the goal is met with the first capture there. Without
such a test the goal is missed, without observation, by the lowest fitness of the tests. So a suite
of tests that are run meets a goal exactly when one of them does. Its fitness does not depend on
their order, and tests added behind make it no worse and change nothing if the goal is met
already. -/
theorem suite_scores_by_best_test {subject : Subject} (hSubject : subject ∈ all) (goal : Goal) :
    (∀ chromosome : Chromosome InputVector,
      (∀ test ∈ chromosome.tests, test.args.length = subject.arity → subject.Runs test) →
        ((∃ failure, subject.executor.execute chromosome goal = .ok (.error failure)) ↔
          ∃ test, chromosome.tests.find? (subject.settles goal) = some test ∧
            test.args.length ≠ subject.arity) ∧
        match chromosome.tests.find? (subject.settles goal) with
        | some test =>
            if test.args.length = subject.arity then
              ∃ trace values, subject.run test.args = .ok trace ∧
                trace.firstCapture goal.id = some values ∧
                subject.executor.execute chromosome goal =
                  .ok (.ok (.covered (some (.ofInts values))))
            else subject.executor.execute chromosome goal = .ok (.error (subject.refusal test))
        | none =>
            ∃ execution, subject.executor.execute chromosome goal = .ok (.ok execution) ∧
              execution.isCovered = false ∧ execution.observation = none ∧
              subject.Lowest goal chromosome.tests execution.fitness) ∧
    ∀ tests : List InputVector, (∀ test ∈ tests, subject.Runs test) →
      (subject.Covers goal (.suite tests) ↔ ∃ test ∈ tests, subject.Covers goal (.single test)) ∧
      ∃ execution, subject.executor.execute (.suite tests) goal = .ok (.ok execution) ∧
        (∀ other : List InputVector, tests.Perm other →
          ∃ reordered, subject.executor.execute (.suite other) goal = .ok (.ok reordered) ∧
            reordered.fitness = execution.fitness) ∧
        ∀ more : List InputVector, (∀ test ∈ more, subject.Runs test) →
          ∃ larger, subject.executor.execute (.suite (tests ++ more)) goal = .ok (.ok larger) ∧
            larger.fitness ≤ execution.fitness ∧
            (execution.isCovered = true → larger = execution) := by
  obtain ⟨width, hTame⟩ := exists_tame hSubject
  constructor
  · intro chromosome hRuns
    obtain ⟨answer, hAnswer, hScored⟩ := exists_scored_execute hTame goal hRuns
    rw [hAnswer]
    refine ⟨by simpa using hScored.error_iff, ?_⟩
    cases hScored with
    | refused first arity => simp [first, arity]
    | met first run capture =>
        simp only [first, length_of_run run, if_true]
        exact ⟨_, _, run, capture, rfl⟩
    | missed unsettled lowest =>
        rw [unsettled]
        exact ⟨_, rfl, Execution.isCovered_of_pos (lowest.pos hTame) none, rfl, lowest⟩
  · intro tests hRuns
    obtain ⟨execution, hAnswer, hScored⟩ := exists_execution hTame goal hRuns
    refine ⟨covers_suite_iff hTame hRuns, execution, hAnswer, fun other hPerm => ?_,
      fun more hMore => ?_⟩
    · obtain ⟨reordered, hReordered, hOther⟩ := exists_execution hTame goal
        fun test hMem => hRuns test (hPerm.mem_iff.mpr hMem)
      exact ⟨reordered, hReordered, hOther.fitness_eq_of_perm hTame hScored hPerm.symm⟩
    · have hAll : ∀ test ∈ tests ++ more, subject.Runs test := fun test hMem =>
        (List.mem_append.mp hMem).elim (hRuns test) (hMore test)
      obtain ⟨larger, hLarger, hOther⟩ := exists_execution hTame goal hAll
      exact ⟨larger, hLarger, hScored.le_of_subset hTame hOther (List.subset_append_left _ _),
        hScored.eq_of_append hTame hOther⟩

def compared (args : List Int64) : InputVector :=
  ⟨lessThan.function, args, lessThan.low, lessThan.high⟩

/-- The goal of the branch where the first number is not less. -/
def notLess : Goal :=
  .located LessThan.falseBranch "Checks" "check_lt" 11

/-- The second of three tests reaches the branch, so the third one is not refused. Without tests
there is nothing to guide a search. -/
theorem suite_scores_by_best_test_lessThan :
    lessThan ∈ all ∧
      (∃ trace values, lessThan.run [4, 4] = .ok trace ∧
        trace.firstCapture LessThan.falseBranch = some values ∧
        lessThan.executor.execute (.suite [compared [1, 9], compared [4, 4], compared [7]]) notLess =
          .ok (.ok (.covered (some (.ofInts values))))) ∧
      ∃ execution, lessThan.executor.execute (.suite []) notLess = .ok (.ok execution) ∧
        execution.fitness = unguidedFitness := by
  have hSubject : lessThan ∈ all := List.mem_cons_self
  have hScores := (suite_scores_by_best_test hSubject notLess).1
  refine ⟨hSubject, ?_, ?_⟩
  · have hFirst : [compared [1, 9], compared [4, 4], compared [7]].find?
        (lessThan.settles notLess) = some (compared [4, 4]) := by decide +kernel
    have hSuite := (hScores (.suite [compared [1, 9], compared [4, 4], compared [7]]) ?_).2
    · rw [Chromosome.tests, hFirst] at hSuite
      exact hSuite
    intro test hMem hLength
    simp only [Chromosome.tests, List.mem_cons, List.not_mem_nil, or_false] at hMem
    rcases hMem with rfl | rfl | rfl
    · exact ⟨_, rfl⟩
    · exact ⟨_, rfl⟩
    · cases hLength
  · obtain ⟨execution, hAnswer, -, -, hLowest⟩ := (hScores (.suite []) nofun).2
    exact ⟨execution, hAnswer, hLowest.empty rfl⟩

end Subject

end WitnessSearch
