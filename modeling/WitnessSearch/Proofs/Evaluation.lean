import WitnessSearch.Diversity
import WitnessSearch.Proofs.Evaluation.Rounds

/-! Where the executions in the hands of the search come from. Every execution that an evaluator
stores or answers with is the verdict of the executor on some candidate with the fingerprint it is
filed under. Nothing is asked of the executor for this; one that tells candidates with one
fingerprint apart may have judged another candidate than the one at hand. -/

namespace WitnessSearch

variable {τ : Type} [HasCode τ]

/-- The executor came to this execution for a candidate with the given fingerprint. -/
def Executor.Attests (executor : Executor τ) (fingerprint : Fingerprint) (goal : Goal)
    (execution : Execution) : Prop :=
  ∃ chromosome : Chromosome τ,
    chromosome.fingerprint = fingerprint ∧ executor.verdict chromosome goal = .ok execution

/-- The executor answers for fingerprints: it does not tell candidates with one fingerprint
apart. -/
def Executor.ByFingerprint (executor : Executor τ) : Prop :=
  ∀ (c d : Chromosome τ) (goal : Goal), c.fingerprint = d.fingerprint →
    executor.execute c goal = executor.execute d goal

/-- What was attested for a fingerprint is then the verdict on every candidate that has it. -/
theorem Executor.Attests.verdict_eq {executor : Executor τ} (hExecutor : executor.ByFingerprint)
    {chromosome : Chromosome τ} {goal : Goal} {execution : Execution}
    (h : executor.Attests chromosome.fingerprint goal execution) :
    executor.verdict chromosome goal = .ok execution := by
  obtain ⟨judged, hSame, hVerdict⟩ := h
  rw [← hVerdict, Executor.verdict, Executor.verdict, hExecutor judged chromosome goal hSame]

/-- A candidate that could not be run meets nothing. -/
theorem Execution.isCovered_failed : Execution.failed.isCovered = false := by
  decide

omit [HasCode τ] in
/-- An execution that met its goal did not come from a candidate that could not be run. -/
theorem Executor.execute_of_verdict {executor : Executor τ} {chromosome : Chromosome τ}
    {goal : Goal} {execution : Execution} (h : executor.verdict chromosome goal = .ok execution)
    (hCovered : execution.isCovered = true) :
    executor.execute chromosome goal = .ok (.ok execution) := by
  unfold verdict at h
  split at h
  · rename_i hAnswer
    cases h
    exact hAnswer
  · cases h
    rw [Execution.isCovered_failed] at hCovered
    cases hCovered
  · cases h

def Memo.Attested (executor : Executor τ) (memo : Memo) : Prop :=
  ∀ fingerprint goal execution, memo.peek? fingerprint goal = some execution →
    executor.Attests fingerprint goal execution

def Evaluator.Attested (executor : Executor τ) (evaluator : Evaluator) : Prop :=
  evaluator.memo.Attested executor

/-- A candidate bound to a goal carries its own fingerprint and an attested execution. -/
structure Evaluated.Faithful (executor : Executor τ) (candidate : Evaluated τ) : Prop where
  fingerprint : candidate.fingerprint = candidate.chromosome.fingerprint
  attested : executor.Attests candidate.fingerprint candidate.goal candidate.execution

/-- A candidate bound to the goal that met it. -/
structure Evaluated.Meets (executor : Executor τ) (goal : Goal) (candidate : Evaluated τ) :
    Prop where
  goal : candidate.goal = goal
  faithful : candidate.Faithful executor
  isCovered : candidate.isCovered = true

theorem Memo.attested_empty (executor : Executor τ) : Memo.empty.Attested executor := by
  intro fingerprint goal execution h
  simp [empty, peek?] at h

namespace Evaluator

variable {executor : Executor τ}

/-- Looking up adds nothing to the memo, so it is enough that what is inserted is attested. -/
theorem Attested.worked {evaluator : Evaluator} (h : evaluator.Attested executor)
    {requests : List Memo.Request} (handed : List Pair)
    (hInserted : ∀ entry ∈ Memo.insertions requests,
      executor.Attests entry.1.1 entry.1.2 entry.2) :
    (evaluator.worked requests handed).Attested executor := by
  intro fingerprint goal execution hFound
  have hStored := Memo.peek?_serveAll evaluator.memo requests (fingerprint, goal)
  rw [Evaluator.worked] at hFound
  rw [hFound, eq_comm, Option.or_eq_some_iff] at hStored
  rcases hStored with hOld | ⟨-, hNew⟩
  · exact h fingerprint goal execution hOld
  · obtain ⟨earlier, later, hAll, -⟩ := List.lookup_eq_some_iff.mp hNew
    exact hInserted ((fingerprint, goal), execution) (by simp [hAll])

variable (executor)

/-- An evaluated candidate is the one asked about, bound to the goal asked about. -/
theorem keeps_evaluate (chromosome : Chromosome τ) (goal : Goal) :
    Keeps (Attested executor) (evaluate executor chromosome goal) fun candidate =>
      candidate.chromosome = chromosome ∧ candidate.goal = goal ∧ candidate.Faithful executor := by
  intro evaluator candidate final hMemo hRun
  rw [evaluate_eq] at hRun
  split at hRun
  · rename_i hFound
    cases hRun
    exact ⟨⟨rfl, rfl, rfl, hMemo _ _ _ hFound⟩, hMemo.worked _ nofun⟩
  · rename_i hVerdict
    cases hRun
    have hAttested : executor.Attests chromosome.fingerprint goal _ := ⟨chromosome, rfl, hVerdict⟩
    exact ⟨⟨rfl, rfl, rfl, hAttested⟩, hMemo.worked _ (List.forall_mem_singleton.mpr hAttested)⟩
  · cases hRun

section Batch

/-- What a planned candidate is settled with goes back to the executor, whether it was found in the
memo or run. -/
theorem SettlesFrom.attests {memo : Memo} (hMemo : memo.Attested executor) {goal : Goal}
    {candidate : Named τ} {settled : Settled} (hProper : candidate.Proper)
    (h : SettlesFrom executor memo goal candidate settled) :
    executor.Attests settled.fingerprint goal settled.execution := by
  rw [h.fingerprint]
  rcases h.execution with ⟨hFound, -⟩ | ⟨-, -, hVerdict⟩
  · exact hMemo _ _ _ hFound
  · exact ⟨candidate.2, hProper.symm, hVerdict⟩

/-- A batch is resolved with executions that go back to the executor, one for each candidate and
goal. -/
theorem keeps_resolve (candidates : List (Named τ)) (goals : List Goal)
    (hProper : ∀ candidate ∈ candidates, candidate.Proper) :
    Keeps (Attested executor) (resolve executor candidates goals) <|
      List.Forall₂ (fun goal => List.Forall₂ (fun candidate execution =>
        executor.Attests candidate.1 goal execution) candidates) goals := by
  intro before rows after hMemo hRun
  obtain ⟨settled, hResolves⟩ := exists_resolves hRun
  have hEntries : ∀ row ∈ settled, ∀ entry ∈ row.2,
      executor.Attests entry.fingerprint row.1 entry.execution := by
    intro row hRow entry hEntry
    obtain ⟨candidate, hMem, hSettles⟩ := hResolves.exists_candidate hRow hEntry
    exact hSettles.attests executor hMemo (hProper candidate hMem)
  refine ⟨hResolves.forall_rows executor.Attests hEntries, ?_⟩
  rw [hResolves.after_eq]
  refine hMemo.worked _ fun entry hEntry => ?_
  rw [insertions_batch, additions, List.mem_flatMap] at hEntry
  obtain ⟨row, hRow, hStored⟩ := hEntry
  obtain ⟨settled, hSettled, hStored⟩ := List.mem_flatMap.mp hStored
  rw [eq_of_mem_addition hStored]
  exact hEntries row hRow settled hSettled

/-- A batch is evaluated to one row for each goal, with the candidates in their order. -/
theorem keeps_evaluateBatch (chromosomes : List (Chromosome τ)) (goals : List Goal) :
    Keeps (Attested executor) (evaluateBatch executor chromosomes goals) <|
      List.Forall₂ (fun goal => List.Forall₂ (fun chromosome candidate =>
        candidate.chromosome = chromosome ∧ candidate.goal = goal ∧ candidate.Faithful executor)
        chromosomes) goals := by
  apply Keeps.bind (keeps_resolve executor (named chromosomes) goals fun _ => proper_of_mem_named)
  intro rows hRows
  refine Keeps.pure (related_zipWith hRows ?_)
  intro goal row hRow
  have hNamed : List.Forall₂ (fun (candidate : Named τ) (evaluated : Evaluated τ) =>
      evaluated.chromosome = candidate.2 ∧ evaluated.goal = goal ∧
        (candidate.Proper → evaluated.Faithful executor)) (named chromosomes)
      (List.zipWith (fun candidate execution => ⟨candidate.2, candidate.1, goal, execution⟩)
        (named chromosomes) row) :=
    related_zipWith hRow fun candidate execution hAttested =>
      ⟨rfl, rfl, fun hName => ⟨hName, hAttested⟩⟩
  exact (List.forall₂_map_left_iff.mp hNamed).imp fun _ _ h => ⟨h.1, h.2.1, h.2.2 rfl⟩

theorem keeps_fitnessMatrix (chromosomes : List (Chromosome τ)) (goals : List Goal) :
    Keeps (Attested executor) (fitnessMatrix executor chromosomes goals) fun _ => True := by
  apply Keeps.bind (keeps_resolve executor (named chromosomes) goals fun _ => proper_of_mem_named)
  intro rows _
  exact Keeps.pure trivial

end Batch

end Evaluator

/-- A candidate that is bound to the goal stays as it is, and any other is evaluated again. -/
theorem Diversity.keeps_rebound {invariant : Evaluator → Prop} {executor : Executor τ} {goal : Goal}
    {candidates : List (Evaluated τ)} (rebound : Evaluated τ → Evaluated τ → Prop)
    (hBound : ∀ candidate ∈ candidates, candidate.goal = goal → rebound candidate candidate)
    (hEvaluate : ∀ candidate ∈ candidates, Keeps invariant
      (Evaluator.evaluate executor candidate.chromosome goal) (rebound candidate)) :
    Keeps invariant (refresh executor goal candidates) fun covering =>
      ∃ bound, List.Forall₂ rebound candidates bound ∧ covering = bound.filter (·.isCovered) := by
  have hOne : ∀ candidate ∈ candidates, Keeps invariant
      (if candidate.goal = goal then pure candidate
        else Evaluator.evaluate executor candidate.chromosome goal) (rebound candidate) := by
    intro candidate hMem
    split
    · rename_i hGoal
      exact Keeps.pure (hBound candidate hMem hGoal)
    · exact hEvaluate candidate hMem
  exact Keeps.bind (Keeps.mapM hOne) fun bound hAll => Keeps.pure ⟨bound, hAll, rfl⟩

/-- What is refreshed for a goal is bound to the goal and meets it. -/
theorem Diversity.keeps_refresh (executor : Executor τ) (goal : Goal)
    (candidates : List (Evaluated τ))
    (h : ∀ candidate ∈ candidates, candidate.Faithful executor) :
    Keeps (Evaluator.Attested executor) (refresh executor goal candidates) fun covering =>
      ∀ candidate ∈ covering, candidate.Meets executor goal := by
  have hRebound := keeps_rebound
    (fun _ (bound : Evaluated τ) => bound.goal = goal ∧ bound.Faithful executor)
    (fun candidate hMem hGoal => ⟨hGoal, h candidate hMem⟩) fun candidate _ =>
      (Evaluator.keeps_evaluate executor candidate.chromosome goal).weaken fun _ hOne => hOne.2
  refine hRebound.weaken ?_
  rintro _ ⟨bound, hBound, rfl⟩ candidate hMem
  obtain ⟨hKept, hCovered⟩ := List.mem_filter.mp hMem
  obtain ⟨-, -, hGoal, hFaithful⟩ := exists_left_of_related hBound hKept
  exact ⟨hGoal, hFaithful, hCovered⟩

end WitnessSearch
