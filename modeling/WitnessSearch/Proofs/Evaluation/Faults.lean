import WitnessSearch.Proofs.Evaluation
import WitnessSearch.Proofs.Evaluation.Records
import WitnessSearch.Proofs.Search.Survivors

/-! What an evaluator hands to the executor when it is asked for good candidates only. The
candidates are then all it ever hands over, so nothing can go wrong but what the executor does on
one of them; looking up and storing executions cannot go wrong at all. What the executor is known to
answer can be said of all executions that are found in the memo later. -/

namespace WitnessSearch

variable {τ : Type}

def Chromosome.Wholly (good : τ → Prop) (chromosome : Chromosome τ) : Prop :=
  ∀ test ∈ chromosome.tests, good test

/-- An execution has a finite distance that is not negative, and if it meets its goal its
observation has the given number of components. A missing observation counts as the empty one. -/
structure Execution.Fits (arity : Nat) (execution : Execution) : Prop where
  finite : execution.fitness.isFinite = true
  nonneg : ¬execution.fitness < 0.0
  arity : execution.isCovered = true → (execution.observation.getD .empty).arity = arity

variable [HasCode τ]

/-- What stands for a candidate that could not be run fits every goal, as it covers none. -/
theorem Execution.fits_failed (arity : Nat) : Execution.failed.Fits arity where
  finite := by decide
  nonneg := by decide
  arity h := absurd h (by rw [isCovered_failed]; exact Bool.false_ne_true)

/-- An execution that fits has a finite distance that is not negative. -/
theorem Execution.Fits.distance {execution : Execution} {arity : Nat} (h : execution.Fits arity) :
    execution.fitness.isFinite = true ∧ ¬execution.fitness < 0.0 :=
  ⟨h.finite, h.nonneg⟩

/-- What holds of all answers of the executor for a goal, and of what stands for a candidate that
could not be run, holds of all executions that go back to the executor. -/
theorem Executor.Attests.of_answers {executor : Executor τ} {goal : Goal}
    (property : Execution → Prop) (hFailed : property .failed)
    (hAnswers : ∀ chromosome execution, executor.execute chromosome goal = .ok (.ok execution) →
      property execution)
    {fingerprint : Fingerprint} {execution : Execution}
    (h : executor.Attests fingerprint goal execution) : property execution := by
  obtain ⟨chromosome, -, hVerdict⟩ := h
  unfold Executor.verdict at hVerdict
  split at hVerdict
  · rename_i hAnswer
    cases hVerdict
    exact hAnswers _ _ hAnswer
  · cases hVerdict
    exact hFailed
  · cases hVerdict

/-- What fits when the executor answers it fits when the evaluator does. -/
theorem Executor.Attests.fits {executor : Executor τ} {arity : Goal → Nat}
    (hFits : ∀ chromosome goal execution, executor.execute chromosome goal = .ok (.ok execution) →
      execution.Fits (arity goal))
    {fingerprint : Fingerprint} {goal : Goal} {execution : Execution}
    (h : executor.Attests fingerprint goal execution) : execution.Fits (arity goal) :=
  h.of_answers (Execution.Fits (arity goal)) (Execution.fits_failed _) fun chromosome execution =>
    hFits chromosome goal execution

namespace Evaluator

def Logged (good : τ → Prop) (evaluator : Evaluator) : Prop :=
  ∀ pair ∈ evaluator.calls, ∃ chromosome : Chromosome τ,
    chromosome.Wholly good ∧ chromosome.fingerprint = pair.1

/-- An evaluator was stopped by one of the given faults, on a good candidate. -/
def Broken (faults : Fault → Prop) (good : τ → Prop) (fault : Fault) (evaluator : Evaluator) :
    Prop :=
  faults fault ∧ evaluator.Logged good

section Works

variable {α : Type} {executor : Executor τ} {good : τ → Prop} {among : List (Chromosome τ)}
  {run : Evaluation α}

/-- As long as only good candidates are evaluated, only good ones are handed to the executor. -/
theorem Busy.logged {before after : Evaluator} (h : Busy among before after)
    (hGood : ∀ chromosome ∈ among, chromosome.Wholly good) (hBefore : before.Logged good) :
    after.Logged good := by
  obtain ⟨requests, handed, rfl, hHanded⟩ := h
  refine List.forall_mem_append.mpr ⟨fun pair hPair => ?_, hBefore⟩
  obtain ⟨chromosome, hMem, hName⟩ := hHanded pair (List.mem_reverse.mp hPair)
  exact ⟨chromosome, hGood chromosome hMem, hName⟩

/-- Nothing goes wrong but what the executor does on a good candidate. -/
theorem Works.guards_logged {faults : Fault → Prop} (h : ∀ before, Works executor among before run)
    (hExecute : ∀ chromosome : Chromosome τ, chromosome.Wholly good → ∀ goal fault,
      executor.execute chromosome goal = .error fault → faults fault)
    (hGood : ∀ chromosome ∈ among, chromosome.Wholly good) :
    Guards (Broken faults good) (Logged good) run fun _ => True := by
  intro before hBefore
  have hOutcome := h before (Busy.refl before)
  cases hRun : run before with
  | ok answer after =>
      rw [hRun] at hOutcome
      exact ⟨trivial, hOutcome.2.logged hGood hBefore⟩
  | error fault after =>
      rw [hRun] at hOutcome
      obtain ⟨⟨chromosome, hMem, goal, hFault⟩, hBusy⟩ := hOutcome
      exact ⟨hExecute chromosome (hGood chromosome hMem) goal fault hFault,
        hBusy.logged hGood hBefore⟩

end Works

variable {faults : Fault → Prop} {good : τ → Prop} {executor : Executor τ}

theorem length_of_fitnessMatrix {chromosomes : List (Chromosome τ)} {goals : List Goal}
    {before after : Evaluator} {matrix : List (List Float)}
    (h : fitnessMatrix executor chromosomes goals before = .ok matrix after) :
    matrix.length = chromosomes.length := by
  obtain ⟨rows, middle, hRows, hMatrix⟩ := exists_of_run_bind h
  obtain ⟨settled, hResolves⟩ := exists_resolves hRows
  cases hMatrix
  refine length_transpose fun row hRow => ?_
  obtain ⟨row, hMem, rfl⟩ := List.mem_map.mp hRow
  rw [hResolves.rows_eq] at hMem
  obtain ⟨_, -, rfl⟩ := List.mem_map.mp hMem
  simp [named]

/-- What is known of an evaluator that has all executions of a memo: its executions go back to the
executor, and it handed over good candidates only. -/
structure Trusted (executor : Executor τ) (good : τ → Prop) (memo : Memo) (evaluator : Evaluator) :
    Prop where
  attested : evaluator.Attested executor
  within : memo.Within evaluator.memo
  logged : evaluator.Logged good

variable {memo : Memo}

/-- The three parts of trust are shown apart. -/
theorem Trusted.guards {α : Type} {run : Evaluation α} {property faultless : α → Prop}
    (hLogged : Guards (Broken faults good) (Logged good) run faultless)
    (hAttested : Keeps (Attested executor) run property)
    (hWithin : Keeps (fun evaluator => memo.Within evaluator.memo) run fun _ => True) :
    Guards (Broken faults good) (Trusted executor good memo) run property := by
  have hFaults := Confines.strengthen hLogged
    (fun evaluator (h : Trusted executor good memo evaluator) => h.logged)
  have hAnswers := (hFaults.and_ensures
    (Ensures.strengthen hAttested fun _ h => h.attested)).and_ensures
      (Ensures.strengthen hWithin fun _ h => h.within)
  exact hAnswers.weaken fun answer evaluator h =>
    ⟨h.1.2.1, ⟨h.1.2.2, h.2.2, h.1.1.2⟩⟩

/-- The fitness of a candidate on a goal is that of an execution the executor came to. -/
def Scores (executor : Executor τ) (chromosome : Chromosome τ) (goal : Goal) (fitness : Float) :
    Prop :=
  ∃ execution, executor.Attests chromosome.fingerprint goal execution ∧
    execution.fitness = fitness

/-- The matrix holds what the candidates score on the goals, row by row. -/
theorem keeps_fitnessMatrix_scores (executor : Executor τ) (chromosomes : List (Chromosome τ))
    (goals : List Goal) :
    Keeps (Attested executor) (fitnessMatrix executor chromosomes goals)
      (List.Forall₂ (fun chromosome => List.Forall₂ (Scores executor chromosome) goals)
        chromosomes) := by
  apply Keeps.bind (keeps_resolve executor (named chromosomes) goals fun _ => proper_of_mem_named)
  intro rows hRows
  refine Keeps.pure (related_transpose (List.forall₂_map_right_iff.mpr (hRows.imp ?_)))
  intro goal row hRow
  have hNamed := List.forall₂_map_left_iff.mp hRow
  exact List.forall₂_map_right_iff.mpr (hNamed.imp fun _ execution h => ⟨execution, h, rfl⟩)

section Runs

variable (hExecute : ∀ chromosome : Chromosome τ, chromosome.Wholly good → ∀ goal fault,
  executor.execute chromosome goal = .error fault → faults fault)
include hExecute

/-- Evaluating a good candidate fails with the executor only, and what it answers is the true
outcome of the candidate. -/
theorem trusted_evaluate {chromosome : Chromosome τ} (hGood : chromosome.Wholly good)
    (goal : Goal) :
    Guards (Broken faults good) (Trusted executor good memo) (evaluate executor chromosome goal)
      fun candidate => candidate.chromosome = chromosome ∧ candidate.goal = goal ∧
        candidate.Faithful executor :=
  Trusted.guards
    (Works.guards_logged (fun _ => works_evaluate executor chromosome goal) hExecute
      (List.forall_mem_singleton.mpr hGood))
    (keeps_evaluate executor chromosome goal)
    (Works.keeps_within fun _ => works_evaluate executor chromosome goal)

/-- Scoring good candidates fails with the executor only, and each row holds the scores of one
candidate. -/
theorem trusted_fitnessMatrix {chromosomes : List (Chromosome τ)} {goals : List Goal}
    (hGood : ∀ chromosome ∈ chromosomes, chromosome.Wholly good) :
    Guards (Broken faults good) (Trusted executor good memo)
      (fitnessMatrix executor chromosomes goals)
      (List.Forall₂ (fun chromosome => List.Forall₂ (Scores executor chromosome) goals)
        chromosomes) :=
  Trusted.guards
    (Works.guards_logged (fun _ => works_fitnessMatrix executor chromosomes goals) hExecute hGood)
    (keeps_fitnessMatrix_scores executor chromosomes goals)
    (Works.keeps_within fun _ => works_fitnessMatrix executor chromosomes goals)

/-- After a batch the evaluator is trusted with what the batch found, too. -/
theorem trusted_evaluateBatch {chromosomes : List (Chromosome τ)} {goals : List Goal}
    (hGood : ∀ chromosome ∈ chromosomes, chromosome.Wholly good) (hGoals : goals.Nodup) :
    Confines (Broken faults good) (Trusted executor good memo)
      (evaluateBatch executor chromosomes goals) fun rows evaluator =>
        (List.Forall₂ (fun goal => List.Forall₂ (fun chromosome candidate =>
          candidate.chromosome = chromosome ∧ candidate.goal = goal ∧
            candidate.Faithful executor) chromosomes) goals rows ∧
        List.Forall₂ (evaluator.RecordsRow chromosomes) goals rows) ∧
        Trusted executor good memo evaluator := by
  have hTrusted : Guards (Broken faults good) (Trusted executor good memo)
      (evaluateBatch executor chromosomes goals) _ := Trusted.guards
    (Works.guards_logged (fun _ => works_evaluateBatch executor chromosomes goals) hExecute hGood)
    (keeps_evaluateBatch executor chromosomes goals)
    (Works.keeps_within fun _ => works_evaluateBatch executor chromosomes goals)
  have hRecords : Ensures (Trusted executor good memo)
      (evaluateBatch executor chromosomes goals) fun rows evaluator =>
        List.Forall₂ (evaluator.RecordsRow chromosomes) goals rows :=
    Ensures.strengthen (ensures_evaluateBatch_records executor chromosomes hGoals) fun _ _ => trivial
  exact (hTrusted.and_ensures hRecords).weaken fun _ _ h => ⟨⟨h.1.1, h.2⟩, h.1.2⟩

end Runs

end Evaluator

end WitnessSearch
