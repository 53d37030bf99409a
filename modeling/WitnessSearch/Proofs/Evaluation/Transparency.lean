import WitnessSearch.Proofs.Evaluation
import WitnessSearch.Proofs.Evaluation.Works

/-! The memo does not show in the answers. When the executor goes by fingerprints and goals, an
evaluator answers every request as if it had nothing but the executor, whatever it was asked for
before. -/

namespace WitnessSearch.Evaluator

/-- What an executor that goes by fingerprints and goals says of every pair. -/
abbrev Outcomes := Fingerprint → Goal → Except ExecutionFailure Execution

/-- The execution of a pair. A candidate that cannot be run has the worst fitness. -/
def Outcomes.execution (outcomes : Outcomes) (fingerprint : Fingerprint) (goal : Goal) :
    Execution :=
  match outcomes fingerprint goal with
  | .ok execution => execution
  | .error _ => .failed

variable {τ : Type} [HasCode τ]

/-- A candidate bound to a goal, with its execution straight from the executor. -/
def judged (outcomes : Outcomes) (goal : Goal) (chromosome : Chromosome τ) : Evaluated τ :=
  ⟨chromosome, chromosome.fingerprint, goal, outcomes.execution chromosome.fingerprint goal⟩

def Request.uncached (outcomes : Outcomes) : Request τ → Answer τ
  | .evaluate chromosome goal => .candidate (judged outcomes goal chromosome)
  | .batch chromosomes goals =>
    .rows (goals.map fun goal => chromosomes.map (judged outcomes goal))
  | .matrix chromosomes goals =>
    .fitness (chromosomes.map fun chromosome =>
      goals.map fun goal => (judged outcomes goal chromosome).fitness)
  | .refresh goal candidates =>
    .covering ((candidates.map fun candidate => judged outcomes goal candidate.chromosome).filter
      (·.isCovered))

/-- A table that is the same function at every place turns into the one with rows and columns
exchanged. -/
theorem transpose_map {α β γ : Type} (xs : List α) (ys : List β) (f : α → β → γ) :
    transpose xs.length (ys.map fun y => xs.map fun x => f x y) =
      xs.map fun x => ys.map fun y => f x y := by
  have hColumn : ∀ (a : α → γ) (b : α → List γ),
      List.zipWith (· :: ·) (xs.map a) (xs.map b) = xs.map fun x => a x :: b x := by
    intro a b
    rw [List.zipWith_map, List.zipWith_self]
  induction ys with
  | nil => simp [transpose, List.map_const']
  | cons y ys ih =>
      rw [transpose, List.map_cons, List.foldr_cons]
      change List.zipWith _ _ (transpose xs.length (ys.map fun y => xs.map fun x => f x y)) = _
      rw [ih, hColumn]
      rfl

section Fixed

variable {executor : Executor τ} {outcomes : Outcomes}
  (hExecutor : ∀ chromosome goal,
    executor.execute chromosome goal = .ok (outcomes chromosome.fingerprint goal))
include hExecutor

/-- An executor that answers by the outcomes attests to these and to nothing else. -/
theorem execution_of_attests {fingerprint : Fingerprint} {goal : Goal} {execution : Execution}
    (h : executor.Attests fingerprint goal execution) :
    execution = outcomes.execution fingerprint goal := by
  obtain ⟨chromosome, rfl, hVerdict⟩ := h
  rw [Executor.verdict, hExecutor] at hVerdict
  unfold Outcomes.execution
  cases hOutcome : outcomes chromosome.fingerprint goal <;> simp_all

/-- Judging by the outcomes is faithful to an executor that answers by them. -/
theorem faithful_judged (goal : Goal) (chromosome : Chromosome τ) :
    (judged outcomes goal chromosome).Faithful executor where
  fingerprint := rfl
  attested := by
    refine ⟨chromosome, rfl, ?_⟩
    rw [Executor.verdict, hExecutor, judged, Outcomes.execution]
    cases outcomes chromosome.fingerprint goal <;> rfl

/-- A faithful candidate is the one that is judged by the outcomes. -/
theorem eq_judged_of_faithful {candidate : Evaluated τ} (h : candidate.Faithful executor) :
    candidate = judged outcomes candidate.goal candidate.chromosome := by
  obtain ⟨hFingerprint, hAttested⟩ := h
  rw [hFingerprint] at hAttested
  cases candidate
  simp only [judged, Evaluated.mk.injEq, true_and]
  exact ⟨hFingerprint, execution_of_attests hExecutor hAttested⟩

/-- A single evaluation answers as if there were no memo. -/
theorem keeps_evaluate_judged (chromosome : Chromosome τ) (goal : Goal) :
    Keeps (Attested executor) (evaluate executor chromosome goal)
      (· = judged outcomes goal chromosome) := by
  refine (keeps_evaluate executor chromosome goal).weaken ?_
  rintro candidate ⟨rfl, rfl, hFaithful⟩
  exact eq_judged_of_faithful hExecutor hFaithful

/-- A batch answers every pair as if there were no memo. -/
theorem keeps_evaluateBatch_judged (chromosomes : List (Chromosome τ)) (goals : List Goal) :
    Keeps (Attested executor) (evaluateBatch executor chromosomes goals)
      (· = goals.map fun goal => chromosomes.map (judged outcomes goal)) := by
  refine (keeps_evaluateBatch executor chromosomes goals).weaken fun rows hRows => ?_
  refine eq_map_of_related (hRows.imp fun goal row hRow => ?_)
  refine eq_map_of_related (hRow.imp fun chromosome candidate h => ?_)
  obtain ⟨rfl, rfl, hFaithful⟩ := h
  exact eq_judged_of_faithful hExecutor hFaithful

/-- The matrix has the fitness that each pair has without a memo. -/
theorem keeps_fitnessMatrix_judged (chromosomes : List (Chromosome τ)) (goals : List Goal) :
    Keeps (Attested executor) (fitnessMatrix executor chromosomes goals)
      (· = chromosomes.map fun chromosome =>
        goals.map fun goal => (judged outcomes goal chromosome).fitness) := by
  refine Keeps.bind
    (keeps_resolve executor (named chromosomes) goals fun _ => proper_of_mem_named) ?_
  intro rows hRows
  have hExecutions : rows = goals.map fun goal =>
      chromosomes.map fun chromosome => outcomes.execution chromosome.fingerprint goal := by
    refine eq_map_of_related (hRows.imp fun goal row hRow => ?_)
    refine eq_map_of_related
      ((List.forall₂_map_left_iff.mp hRow).imp fun chromosome execution h => ?_)
    exact execution_of_attests hExecutor h
  refine Keeps.pure ?_
  rw [hExecutions, List.map_map, ← transpose_map]
  congr 1
  exact List.map_congr_left fun goal _ => List.map_map

/-- An executor with an outcome for every pair has answers for every batch. -/
theorem exists_evaluateBatch {evaluator : Evaluator} (hMemo : evaluator.Attested executor)
    (chromosomes : List (Chromosome τ)) (goals : List Goal) :
    ∃ next, evaluateBatch executor chromosomes goals evaluator =
        .ok (goals.map fun goal => chromosomes.map (judged outcomes goal)) next ∧
      next.Attested executor := by
  obtain ⟨rows, next, hRun⟩ := (works_evaluateBatch executor chromosomes goals).exists_answer
    fun chromosome goal => ⟨_, hExecutor chromosome goal⟩
  obtain ⟨rfl, hNext⟩ :=
    keeps_evaluateBatch_judged hExecutor chromosomes goals hMemo hRun
  exact ⟨next, hRun, hNext⟩

/-- From an attested memo a fitness matrix is always answered, with the fitness of the outcomes. -/
theorem exists_fitnessMatrix {evaluator : Evaluator} (hMemo : evaluator.Attested executor)
    (chromosomes : List (Chromosome τ)) (goals : List Goal) :
    ∃ next, fitnessMatrix executor chromosomes goals evaluator =
        .ok (chromosomes.map fun chromosome =>
          goals.map fun goal => (judged outcomes goal chromosome).fitness) next ∧
      next.Attested executor := by
  obtain ⟨matrix, next, hRun⟩ := (works_fitnessMatrix executor chromosomes goals).exists_answer
    fun chromosome goal => ⟨_, hExecutor chromosome goal⟩
  obtain ⟨rfl, hNext⟩ :=
    keeps_fitnessMatrix_judged hExecutor chromosomes goals hMemo hRun
  exact ⟨next, hRun, hNext⟩

/-- A refreshed candidate is judged again as if there were no memo, and stays if it still covers. -/
theorem keeps_refresh_judged (goal : Goal) {candidates : List (Evaluated τ)}
    (h : ∀ candidate ∈ candidates, candidate.Faithful executor) :
    Keeps (Attested executor) (Diversity.refresh executor goal candidates)
      (· = (candidates.map fun candidate => judged outcomes goal candidate.chromosome).filter
        (·.isCovered)) := by
  have hRebound := Diversity.keeps_rebound
    (fun candidate bound => bound = judged outcomes goal candidate.chromosome)
    (fun candidate hMem hGoal => hGoal ▸ eq_judged_of_faithful hExecutor (h candidate hMem))
    fun candidate _ => keeps_evaluate_judged hExecutor candidate.chromosome goal
  refine hRebound.weaken ?_
  rintro _ ⟨bound, hBound, rfl⟩
  rw [eq_map_of_related hBound]

/-- With nothing but the executor's own executions in the memo and in what is presented, an answer
is the one without a memo. -/
theorem keeps_perform_uncached (request : Request τ)
    (h : ∀ candidate ∈ request.presented, candidate.Faithful executor) :
    Keeps (Attested executor) (request.perform executor) (· = request.uncached outcomes) := by
  cases request with
  | evaluate chromosome goal =>
      refine Keeps.bind (keeps_evaluate_judged hExecutor chromosome goal) ?_
      rintro _ rfl
      exact Keeps.pure rfl
  | batch chromosomes goals =>
      refine Keeps.bind (keeps_evaluateBatch_judged hExecutor chromosomes goals) ?_
      rintro _ rfl
      exact Keeps.pure rfl
  | matrix chromosomes goals =>
      refine Keeps.bind (keeps_fitnessMatrix_judged hExecutor chromosomes goals) ?_
      rintro _ rfl
      exact Keeps.pure rfl
  | refresh goal candidates =>
      refine Keeps.bind (keeps_refresh_judged hExecutor goal h) ?_
      rintro _ rfl
      exact Keeps.pure rfl

/-- The candidates issued without a memo are faithful, so they may be handed in again. -/
theorem faithful_of_mem_uncached (request : Request τ) {candidate : Evaluated τ}
    (h : candidate ∈ (request.uncached outcomes).issued) : candidate.Faithful executor := by
  suffices hJudged : ∃ goal chromosome, candidate = judged outcomes goal chromosome by
    obtain ⟨goal, chromosome, rfl⟩ := hJudged
    exact faithful_judged hExecutor goal chromosome
  cases request with
  | evaluate chromosome goal => exact ⟨goal, chromosome, List.mem_singleton.mp h⟩
  | batch chromosomes goals =>
      obtain ⟨row, hRow, hMem⟩ := List.mem_flatten.mp h
      obtain ⟨goal, -, rfl⟩ := List.mem_map.mp hRow
      obtain ⟨chromosome, -, rfl⟩ := List.mem_map.mp hMem
      exact ⟨goal, chromosome, rfl⟩
  | matrix chromosomes goals => cases h
  | refresh goal candidates =>
      obtain ⟨stale, -, rfl⟩ := List.mem_map.mp (List.mem_of_mem_filter h)
      exact ⟨goal, stale.chromosome, rfl⟩

/-- Throughout a session the memo and the candidates that were handed out stay the executor's own,
and every answer is the one without a memo. -/
theorem Session.attested {exchanges : List (Exchange τ)} {evaluator : Evaluator}
    (h : Session (· = executor) exchanges evaluator) :
    evaluator.Attested executor ∧
      (∀ candidate ∈ issued exchanges, candidate.Faithful executor) ∧
      ∀ exchange ∈ exchanges, exchange.answer = exchange.request.uncached outcomes := by
  induction h with
  | opened => exact ⟨Memo.attested_empty executor, nofun, nofun⟩
  | @asked exchanges evaluator next _ request answer _ hSame hPresented last ih =>
      subst hSame
      obtain ⟨hMemo, hIssued, hAnswers⟩ := ih
      obtain ⟨rfl, hNext⟩ := keeps_perform_uncached hExecutor request
        (fun candidate hMem => hIssued candidate (hPresented hMem)) hMemo last
      refine ⟨hNext, ?_, ?_⟩
      · intro candidate hMem
        rw [issued, List.flatMap_append, List.mem_append] at hMem
        rcases hMem with hMem | hMem
        · exact hIssued candidate hMem
        · exact faithful_of_mem_uncached hExecutor request (by simpa using hMem)
      · intro exchange hMem
        rcases List.mem_append.mp hMem with hMem | hMem
        · exact hAnswers exchange hMem
        · obtain rfl := List.mem_singleton.mp hMem
          rfl

end Fixed

/-- A session cannot tell that there is a memo. All its answers were those without one, and so will
be the next, whatever is asked. -/
theorem session_is_transparent {executor : Executor τ} {outcomes : Outcomes}
    (hExecutor : ∀ chromosome goal,
      executor.execute chromosome goal = .ok (outcomes chromosome.fingerprint goal))
    {exchanges : List (Exchange τ)} {evaluator : Evaluator}
    (h : Session (· = executor) exchanges evaluator) :
    (∀ exchange ∈ exchanges, exchange.answer = exchange.request.uncached outcomes) ∧
      ∀ request : Request τ, request.presented ⊆ issued exchanges →
        ∃ next, request.perform executor evaluator = .ok (request.uncached outcomes) next := by
  obtain ⟨hMemo, hIssued, hAnswers⟩ := h.attested hExecutor
  refine ⟨hAnswers, fun request hPresented => ?_⟩
  obtain ⟨answer, next, hRun⟩ := (works_perform executor request).exists_answer
    fun chromosome goal => ⟨_, hExecutor chromosome goal⟩
  obtain ⟨rfl, -⟩ := keeps_perform_uncached hExecutor request
    (fun candidate hMem => hIssued candidate (hPresented hMem)) hMemo hRun
  exact ⟨next, hRun⟩

section Stale

/-- Every candidate meets the first goal and cannot be run for any other. -/
def firstOnly : Outcomes := fun _ goal =>
  if goal = sampleGoal 1 then .ok (.covered none) else .error (.failed "no such point")

def firstExecutor : Executor InputVector :=
  ⟨fun chromosome goal => .ok (firstOnly chromosome.fingerprint goal)⟩

/-- A candidate that failed for one goal, twice over in a batch that names the goal twice, is
refreshed for a goal that it meets. -/
theorem session_is_transparent_stale :
    ∃ (exchange : Exchange InputVector) (evaluator next : Evaluator),
      Session (· = firstExecutor) [exchange] evaluator ∧
      exchange.request = .batch [sampleCall, sampleCall] [sampleGoal 2, sampleGoal 2] ∧
      (Request.refresh (sampleGoal 1)
        [⟨sampleCall, sampleCall.fingerprint, sampleGoal 2, .failed⟩]).perform
          firstExecutor evaluator =
        .ok (.covering [⟨sampleCall, sampleCall.fingerprint, sampleGoal 1, .covered none⟩])
          next := by
  have hExecutor : ∀ chromosome goal, firstExecutor.execute chromosome goal =
      .ok (firstOnly chromosome.fingerprint goal) := fun _ _ => rfl
  obtain ⟨evaluator, hBatch⟩ := (session_is_transparent hExecutor .opened).2
    (.batch [sampleCall, sampleCall] [sampleGoal 2, sampleGoal 2]) (List.nil_subset _)
  have hSession : Session (· = firstExecutor) _ evaluator :=
    Session.opened.asked rfl (List.nil_subset _) hBatch
  have hFailed : judged firstOnly (sampleGoal 2) sampleCall =
      ⟨sampleCall, sampleCall.fingerprint, sampleGoal 2, .failed⟩ := rfl
  obtain ⟨next, hRefresh⟩ := (session_is_transparent hExecutor hSession).2
    (.refresh (sampleGoal 1) [⟨sampleCall, sampleCall.fingerprint, sampleGoal 2, .failed⟩])
    (by simp [Request.presented, issued, Answer.issued, Request.uncached, hFailed])
  exact ⟨_, evaluator, next, hSession, rfl, hRefresh⟩

end Stale

end WitnessSearch.Evaluator
