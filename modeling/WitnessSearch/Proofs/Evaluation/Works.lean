import WitnessSearch.Proofs.Evaluation.Requests
import WitnessSearch.Proofs.Evaluation.Rounds

/-! What can be said of every run of an evaluator alike: it works on its memo by requests, hands
pairs of the given candidates to the executor, and is stopped by nothing but the executor. -/

namespace WitnessSearch.Evaluator

variable {τ α : Type} [HasCode τ]

/-- From one evaluator to the other only requests were made to the memo and pairs of the given
candidates handed over. -/
def Busy (among : List (Chromosome τ)) (before after : Evaluator) : Prop :=
  ∃ requests handed, after = before.worked requests handed ∧
    ∀ pair ∈ handed, ∃ chromosome ∈ among, chromosome.fingerprint = pair.1

/-- The executor raised the fault on one of the given candidates. -/
def Struck (executor : Executor τ) (among : List (Chromosome τ)) (fault : Fault) : Prop :=
  ∃ chromosome ∈ among, ∃ goal, executor.execute chromosome goal = .error fault

/-- A run that is stopped by a fault has worked up to there as well. -/
abbrev Works (executor : Executor τ) (among : List (Chromosome τ)) (origin : Evaluator)
    (run : Evaluation α) : Prop :=
  Guards (fun fault evaluator => Struck executor among fault ∧ Busy among origin evaluator)
    (Busy among origin) run fun _ => True

section Busy

variable {among : List (Chromosome τ)} {before middle after : Evaluator}

theorem Busy.refl (evaluator : Evaluator) : Busy among evaluator evaluator :=
  ⟨[], [], evaluator.worked_nil.symm, nofun⟩

/-- Going on with requests and executions of the given chromosomes is still being busy with them. -/
theorem Busy.worked (h : Busy among before middle) (requests : List Memo.Request)
    {handed : List Pair}
    (hHanded : ∀ pair ∈ handed, ∃ chromosome ∈ among, chromosome.fingerprint = pair.1) :
    Busy among before (middle.worked requests handed) := by
  obtain ⟨earlier, done, rfl, hDone⟩ := h
  rw [worked_worked]
  exact ⟨_, _, rfl, List.forall_mem_append.mpr ⟨hDone, hHanded⟩⟩

/-- The memo is reached through requests, whatever the work is on. -/
theorem Busy.reaches (h : Busy among before after) : before.memo.Reaches after.memo := by
  obtain ⟨requests, handed, rfl, -⟩ := h
  exact ⟨requests, rfl⟩

end Busy

section Runs

variable (executor : Executor τ) {origin : Evaluator}

/-- An evaluation works on its one chromosome. -/
theorem works_evaluate (chromosome : Chromosome τ) (goal : Goal) :
    Works executor [chromosome] origin (evaluate executor chromosome goal) := by
  intro evaluator hBusy
  have hHanded : ∀ pair ∈ [(chromosome.fingerprint, goal)],
      ∃ other ∈ [chromosome], other.fingerprint = pair.1 :=
    List.forall_mem_singleton.mpr ⟨chromosome, List.mem_cons_self, rfl⟩
  rw [evaluate_eq]
  cases evaluator.memo.peek? chromosome.fingerprint goal with
  | some execution => exact ⟨trivial, hBusy.worked _ nofun⟩
  | none =>
      cases hVerdict : executor.verdict chromosome goal with
      | ok execution => exact ⟨trivial, hBusy.worked _ hHanded⟩
      | error fault =>
          exact ⟨⟨chromosome, List.mem_cons_self, goal, Executor.verdict_eq_error hVerdict⟩,
            hBusy.worked _ hHanded⟩

/-- The pairs a batch hands out are of its own chromosomes. -/
theorem exists_of_mem_handedFor {memo : Memo} {chromosomes : List (Chromosome τ)}
    {goals : List Goal} {p : Pair} (h : p ∈ handedFor memo (named chromosomes) goals) :
    ∃ chromosome ∈ chromosomes, chromosome.fingerprint = p.1 := by
  rw [handedFor_eq memo (fun _ => proper_of_mem_named), Memo.mem_unknown, pairsOf] at h
  obtain ⟨goal, -, hPair⟩ := List.mem_flatMap.mp h.1
  obtain ⟨candidate, hFirst, rfl⟩ := List.mem_map.mp hPair
  obtain ⟨chromosome, hMem, rfl⟩ := List.mem_map.mp (mem_firsts_of_mem hFirst)
  exact ⟨chromosome, hMem, rfl⟩

/-- Resolving a batch works on its chromosomes only. What it stores and what it hands out are both
read off the settled rows. -/
theorem works_resolve (chromosomes : List (Chromosome τ)) (goals : List Goal) :
    Works executor chromosomes origin (resolve executor (named chromosomes) goals) := by
  intro before hBusy
  have hOutcome := confines_resolve executor (named chromosomes) goals before rfl
  cases hRun : resolve executor (named chromosomes) goals before with
  | ok rows after =>
      rw [hRun] at hOutcome
      obtain ⟨settled, hResolves⟩ := hOutcome
      rw [hResolves.after_eq]
      exact ⟨trivial, hBusy.worked _ fun _ => exists_of_mem_handedFor⟩
  | error fault after =>
      rw [hRun] at hOutcome
      obtain ⟨⟨row, hRow, candidate, hPending, hVerdict⟩, done, hDone, rfl⟩ := hOutcome
      refine ⟨⟨candidate.2, ?_, row.1, Executor.verdict_eq_error hVerdict⟩,
        hBusy.worked _ fun _ hMem => exists_of_mem_handedFor (hDone hMem)⟩
      obtain ⟨goal, -, rfl⟩ := List.mem_map.mp hRow
      obtain ⟨first, hFirst, hSame⟩ := List.mem_map.mp hPending
      obtain ⟨chromosome, hMem, rfl⟩ := List.mem_map.mp (mem_firsts_of_mem hFirst)
      rwa [← (Prod.mk.inj hSame).1]

theorem works_evaluateBatch (chromosomes : List (Chromosome τ)) (goals : List Goal) :
    Works executor chromosomes origin (evaluateBatch executor chromosomes goals) :=
  Guards.bind (works_resolve executor chromosomes goals) fun _ _ => Guards.pure trivial

theorem works_fitnessMatrix (chromosomes : List (Chromosome τ)) (goals : List Goal) :
    Works executor chromosomes origin (fitnessMatrix executor chromosomes goals) :=
  Guards.bind (works_resolve executor chromosomes goals) fun _ _ => Guards.pure trivial

end Runs

/-- A run that works with some of the candidates works with all of them. -/
theorem Works.mono {executor : Executor τ} {some all : List (Chromosome τ)} {origin : Evaluator}
    {run : Evaluation α} (h : ∀ origin, Works executor some origin run) (hSome : some ⊆ all) :
    Works executor all origin run := by
  intro evaluator hBusy
  have hMore : ∀ {after}, Busy some evaluator after → Busy all origin after := by
    rintro _ ⟨requests, handed, rfl, hHanded⟩
    refine hBusy.worked _ fun pair hPair => ?_
    obtain ⟨chromosome, hMem, hName⟩ := hHanded pair hPair
    exact ⟨chromosome, hSome hMem, hName⟩
  have hOutcome := h evaluator (Busy.refl evaluator)
  cases hRun : run evaluator with
  | ok answer after =>
      rw [hRun] at hOutcome
      exact ⟨trivial, hMore hOutcome.2⟩
  | error fault after =>
      rw [hRun] at hOutcome
      obtain ⟨⟨chromosome, hMem, goal, hFault⟩, hWorked⟩ := hOutcome
      exact ⟨⟨chromosome, hSome hMem, goal, hFault⟩, hMore hWorked⟩

theorem works_refresh (executor : Executor τ) {origin : Evaluator} (goal : Goal)
    (candidates : List (Evaluated τ)) :
    Works executor (candidates.map (·.chromosome)) origin
      (Diversity.refresh executor goal candidates) := by
  have hOne : ∀ candidate ∈ candidates, Works executor (candidates.map (·.chromosome)) origin
      (if candidate.goal = goal then pure candidate
        else evaluate executor candidate.chromosome goal) := by
    intro candidate hMem
    split
    · exact Guards.pure trivial
    · refine Works.mono (fun _ => works_evaluate executor candidate.chromosome goal) ?_
      exact List.cons_subset.mpr ⟨List.mem_map_of_mem hMem, List.nil_subset _⟩
  exact Guards.bind (Guards.mapM hOne) fun _ _ => Guards.pure trivial

def Request.chromosomes : Request τ → List (Chromosome τ)
  | .evaluate chromosome _ => [chromosome]
  | .batch chromosomes _ | .matrix chromosomes _ => chromosomes
  | .refresh _ candidates => candidates.map (·.chromosome)

/-- Every request works on the chromosomes it names. This is the one rule about an evaluator from
which its invariants follow. -/
theorem works_perform (executor : Executor τ) {origin : Evaluator} (request : Request τ) :
    Works executor request.chromosomes origin (request.perform executor) := by
  cases request with
  | evaluate chromosome goal =>
      exact Guards.bind (works_evaluate executor chromosome goal) fun _ _ => Guards.pure trivial
  | batch chromosomes goals =>
      exact Guards.bind (works_evaluateBatch executor chromosomes goals) fun _ _ =>
        Guards.pure trivial
  | matrix chromosomes goals =>
      exact Guards.bind (works_fitnessMatrix executor chromosomes goals) fun _ _ =>
        Guards.pure trivial
  | refresh goal candidates =>
      exact Guards.bind (works_refresh executor goal candidates) fun _ _ => Guards.pure trivial

section Consequences

variable {executor : Executor τ} {among : List (Chromosome τ)} {run : Evaluation α}

/-- A fault is one that the executor strikes on a chromosome that was worked on. -/
theorem Works.struck {before after : Evaluator} {fault : Fault}
    (h : Works executor among before run) (hRun : run before = .error fault after) :
    Struck executor among fault :=
  (h.fault (Busy.refl before) hRun).1

/-- An evaluator always has an answer if the executor has. -/
theorem Works.exists_answer {before : Evaluator} (h : Works executor among before run)
    (hExecutor : ∀ chromosome goal, ∃ answer, executor.execute chromosome goal = .ok answer) :
    ∃ answer after, run before = .ok answer after := by
  cases hRun : run before with
  | ok answer after => exact ⟨answer, after, rfl⟩
  | error fault after =>
      obtain ⟨chromosome, -, goal, hFault⟩ := h.struck hRun
      obtain ⟨answer, hAnswer⟩ := hExecutor chromosome goal
      rw [hAnswer] at hFault
      cases hFault

/-- What was reached from an earlier memo goes on being reached from it. -/
theorem Works.keeps_reached {origin : Memo} (h : ∀ before, Works executor among before run) :
    Keeps (fun evaluator => origin.Reaches evaluator.memo) run fun _ => True := by
  intro before _ _ hReaches hRun
  exact ⟨trivial, hReaches.trans ((h before).answer (Busy.refl before) hRun).2.reaches⟩

/-- What works on the memo by requests alone changes no execution that is stored. -/
theorem Works.keeps_within {origin : Memo} (h : ∀ before, Works executor among before run) :
    Keeps (fun evaluator => origin.Within evaluator.memo) run fun _ => True := by
  intro before _ _ hWithin hRun
  exact ⟨trivial, hWithin.trans ((h before).answer (Busy.refl before) hRun).2.reaches.within⟩

end Consequences

end WitnessSearch.Evaluator
