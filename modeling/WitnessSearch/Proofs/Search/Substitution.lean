import WitnessSearch.Proofs.Faults
import WitnessSearch.Proofs.Search.Reachable

/-! Searches with another executor. If the other executor gives the same answers but stops on some
candidates with a fault, then a search with it does the same as before or is stopped in this way. So
a search that is never stopped did not need what the other executor lacks. -/

namespace WitnessSearch

/-- Two runs do the same, or the other one is stopped by one of the given faults. -/
def Agree {ε σ α : Type} (stops : ε → Prop) (run other : EStateM ε σ α) : Prop :=
  ∀ state, other state = run state ∨ ∃ fault final, stops fault ∧ other state = .error fault final

namespace Agree

variable {ε σ α β : Type} {stops : ε → Prop} {run other : EStateM ε σ α}

theorem refl (run : EStateM ε σ α) : Agree stops run run :=
  fun _ => .inl rfl

/-- Runs that agree can be followed by runs that agree. -/
protected theorem bind {next next' : α → EStateM ε σ β} (hRun : Agree stops run other)
    (hNext : ∀ a, Agree stops (next a) (next' a)) :
    Agree stops (run >>= next) (other >>= next') := by
  intro state
  rcases hRun state with hSame | ⟨fault, final, hStops, hOther⟩
  · cases hFirst : run state with
    | ok a middle =>
        rw [bind_of_ok hFirst, bind_of_ok (hSame.trans hFirst)]
        exact hNext a middle
    | error fault final =>
        rw [bind_of_error hFirst, bind_of_error (hSame.trans hFirst)]
        exact .inl rfl
  · exact .inr ⟨fault, final, hStops, bind_of_error hOther⟩

/-- Nothing comes after a fault. -/
theorem of_throw {fault : ε} {next next' : α → EStateM ε σ β} :
    Agree stops (throw fault >>= next) (throw fault >>= next') :=
  fun _ => .inl rfl

protected theorem ite {condition : Prop} [Decidable condition] {run' other' : EStateM ε σ α}
    (h : Agree stops run other) (h' : Agree stops run' other') :
    Agree stops (if condition then run else run') (if condition then other else other') := by
  split
  · exact h
  · exact h'

/-- Runs over one list agree if they agree at each of its members. -/
protected theorem mapM {next next' : α → EStateM ε σ β} (h : ∀ a, Agree stops (next a) (next' a))
    (xs : List α) : Agree stops (xs.mapM next) (xs.mapM next') := by
  induction xs with
  | nil => exact refl _
  | cons x xs ih =>
      rw [List.mapM_cons, List.mapM_cons]
      exact Agree.bind (h x) fun y => Agree.bind ih fun ys => refl _

/-- Runs of which the other one is not stopped are the same. -/
theorem eq_of_confines {faults : ε → σ → Prop} {before : σ → Prop} {after : α → σ → Prop}
    (h : Agree stops run other) (hOther : Confines faults before other after)
    (hNever : ∀ fault state, faults fault state → ¬stops fault) {state : σ}
    (hState : before state) : other state = run state := by
  rcases h state with hSame | ⟨fault, final, hStops, hStopped⟩
  · exact hSame
  · exact absurd hStops (hNever fault final (hOther.fault hState hStopped))

end Agree

variable {ρ τ : Type}

/-- The other executor gives the same answers, or is stopped. -/
def Executor.Restricts (stops : Fault → Prop) (executor other : Executor τ) : Prop :=
  ∀ chromosome goal, other.execute chromosome goal = executor.execute chromosome goal ∨
    ∃ fault, stops fault ∧ other.execute chromosome goal = .error fault

variable {stops : Fault → Prop} {executor other : Executor τ}

/-- The executor that is stopped by a fault where the given one reports that a candidate could not
be run. -/
def Executor.insisting (executor : Executor τ) (fault : Fault) : Executor τ where
  execute chromosome goal :=
    match executor.execute chromosome goal with
    | .ok (.error _) => .error fault
    | answer => answer

/-- An executor that insists on runs answers as the one it was made of, or is stopped by its fault.
-/
theorem Executor.restricts_insisting (executor : Executor τ) (fault : Fault) :
    executor.Restricts (· = fault) (executor.insisting fault) := by
  intro chromosome goal
  cases hAnswer : executor.execute chromosome goal with
  | error raised => exact .inl (by simp only [insisting, hAnswer])
  | ok answer =>
      cases answer with
      | ok execution => exact .inl (by simp only [insisting, hAnswer])
      | error failure => exact .inr ⟨fault, rfl, by simp only [insisting, hAnswer]⟩

/-- The executions are those of the given executor. -/
theorem Executor.execute_insisting_iff {fault : Fault} {chromosome : Chromosome τ} {goal : Goal}
    {execution : Execution} :
    (executor.insisting fault).execute chromosome goal = .ok (.ok execution) ↔
      executor.execute chromosome goal = .ok (.ok execution) := by
  unfold insisting
  dsimp only
  split
  · rename_i failure hAnswer
    rw [hAnswer]
    simp
  · rfl

namespace Evaluator

variable [HasCode τ] (h : executor.Restricts stops other)
include h

/-- A single execution agrees unless it is stopped. -/
theorem agree_run (chromosome : Chromosome τ) (goal : Goal) :
    Agree stops (run executor chromosome goal) (run other chromosome goal) := by
  refine Agree.bind (Agree.refl _) fun _ => ?_
  refine Agree.bind (?_ : Agree stops (ofExcept (executor.execute chromosome goal) : Evaluation _)
    _) fun _ => Agree.refl _
  intro evaluator
  rcases h chromosome goal with hSame | ⟨fault, hStops, hStopped⟩
  · exact .inl (by rw [hSame])
  · exact .inr ⟨fault, evaluator, hStops, by rw [hStopped]; rfl⟩

theorem agree_evaluate (chromosome : Chromosome τ) (goal : Goal) :
    Agree stops (evaluate executor chromosome goal) (evaluate other chromosome goal) := by
  refine Agree.bind (Agree.refl _) fun found => ?_
  cases found with
  | some execution => exact Agree.refl _
  | none => exact Agree.bind (agree_run h chromosome goal) fun _ => Agree.refl _

/-- Settling the row of a goal agrees, entry by entry. -/
theorem agree_settle (goal : Goal) (row : List (Named τ × Origin)) :
    Agree stops (settle executor goal row) (settle other goal row) := by
  refine Agree.mapM (fun planned => ?_) row
  obtain ⟨⟨fingerprint, chromosome⟩, origin⟩ := planned
  cases origin with
  | recalled execution => exact Agree.refl _
  | pending => exact Agree.bind (agree_run h chromosome goal) fun _ => Agree.refl _

/-- Resolving a batch agrees. The memo is asked in the same way by both, so they run the same pairs.
-/
theorem agree_resolve (candidates : List (Named τ)) (goals : List Goal) :
    Agree stops (resolve executor candidates goals) (resolve other candidates goals) := by
  refine Agree.bind (Agree.refl _) fun planned => ?_
  refine Agree.bind (Agree.mapM (fun row => ?_) planned) fun _ => Agree.refl _
  exact Agree.bind (agree_settle h row.1 row.2) fun _ => Agree.refl _

theorem agree_evaluateBatch (chromosomes : List (Chromosome τ)) (goals : List Goal) :
    Agree stops (evaluateBatch executor chromosomes goals)
      (evaluateBatch other chromosomes goals) :=
  Agree.bind (agree_resolve h _ goals) fun _ => Agree.refl _

theorem agree_fitnessMatrix (chromosomes : List (Chromosome τ)) (goals : List Goal) :
    Agree stops (fitnessMatrix executor chromosomes goals)
      (fitnessMatrix other chromosomes goals) :=
  Agree.bind (agree_resolve h _ goals) fun _ => Agree.refl _

theorem agree_refresh (goal : Goal) (candidates : List (Evaluated τ)) :
    Agree stops (Diversity.refresh executor goal candidates)
      (Diversity.refresh other goal candidates) := by
  refine Agree.bind (Agree.mapM (fun candidate => ?_) candidates) fun _ => Agree.refl _
  exact Agree.ite (Agree.refl _) (agree_evaluate h candidate.chromosome goal)

end Evaluator

namespace Search

/-- What an evaluation of the evaluator agrees on, the search agrees on. -/
theorem agree_evaluating {α : Type} {evaluation evaluation' : Evaluation α}
    (h : Agree stops evaluation evaluation') :
    Agree stops (evaluating evaluation : SearchM ρ τ α) (evaluating evaluation') := by
  intro search
  unfold evaluating
  dsimp only
  rcases h search.evaluator with hSame | ⟨fault, final, hStops, hStopped⟩
  · exact .inl (by rw [hSame])
  · exact .inr ⟨fault, _, hStops, by rw [hStopped]⟩

variable [HasCode τ] (h : executor.Restricts stops other) (factory : Factory ρ τ)
include h

theorem agree_contestant (goal : Goal) :
    Agree stops (contestant ⟨factory, executor⟩ goal) (contestant ⟨factory, other⟩ goal) := by
  refine Agree.bind (Agree.refl _) fun chromosome => ?_
  exact Agree.bind (agree_evaluating (Evaluator.agree_evaluate h chromosome goal)) fun _ =>
    Agree.refl _

theorem agree_challenge (goal : Goal) (rounds : Nat) (best : Chromosome τ × Float) :
    Agree stops (challenge ⟨factory, executor⟩ goal rounds best)
      (challenge ⟨factory, other⟩ goal rounds best) := by
  induction rounds generalizing best with
  | zero => exact Agree.refl _
  | succ rounds ih =>
      refine Agree.ite (Agree.refl _) ?_
      exact Agree.bind (agree_contestant h factory goal) fun _ => ih _

theorem agree_biasedCandidate (goal : Goal) :
    Agree stops (biasedCandidate ⟨factory, executor⟩ goal)
      (biasedCandidate ⟨factory, other⟩ goal) := by
  refine Agree.bind (Agree.refl _) fun _ => ?_
  exact Agree.bind (agree_contestant h factory goal) fun first =>
    agree_challenge h factory goal _ first

theorem agree_freshCandidates (count : Nat) :
    Agree stops (freshCandidates ⟨factory, executor⟩ count)
      (freshCandidates ⟨factory, other⟩ count) := by
  refine Agree.bind (Agree.refl get) fun search => ?_
  dsimp only
  split
  · exact Agree.of_throw
  refine Agree.bind (Agree.refl _) fun _ => ?_
  split
  · exact Agree.refl _
  · have hEach := fun i => Agree.bind
      (Agree.refl (ofExcept (Checked.fetch search.remaining.toArray i)))
      (agree_biasedCandidate h factory)
    exact Agree.mapM (fun i => hEach (i % search.remaining.toArray.size)) (List.range count)

theorem agree_topUp (size : Nat) (members : List (Chromosome τ)) :
    Agree stops (topUp ⟨factory, executor⟩ size members)
      (topUp ⟨factory, other⟩ size members) := by
  refine Agree.bind (Agree.refl _) fun search => Agree.ite ?_ (Agree.refl _)
  exact Agree.bind (agree_freshCandidates h factory _) fun _ => Agree.refl _

variable [RandomSource ρ] [Variation ρ τ]

theorem agree_induct (goal : Goal) (row : List (Evaluated τ)) :
    Agree stops (induct ⟨factory, executor⟩ goal row : SearchM ρ τ _)
      (induct ⟨factory, other⟩ goal row) :=
  Agree.bind (agree_evaluating (Evaluator.agree_refresh h goal row)) fun _ => Agree.refl _

/-- A pass agrees, since it reaches the executor only through evaluations. -/
theorem agree_pass (candidates : List (Chromosome τ)) :
    Agree stops (pass ⟨factory, executor⟩ candidates) (pass ⟨factory, other⟩ candidates) := by
  refine Agree.bind (Agree.refl get) fun search => Agree.ite (Agree.refl _) ?_
  have hRows : Agree stops (evaluating _ : SearchM ρ τ _) (evaluating _) :=
    agree_evaluating (Evaluator.agree_evaluateBatch h candidates search.remaining)
  refine Agree.bind hRows fun rows => ?_
  have hInductions := Agree.mapM (fun entry => agree_induct h factory entry.1 entry.2)
    (search.remaining.zip rows)
  refine Agree.bind hInductions fun inductions => ?_
  refine Agree.bind (Agree.refl updateRemaining) fun _ => Agree.bind (Agree.refl get) fun _ => ?_
  refine Agree.bind (Agree.refl _) fun ranking => Agree.bind (Agree.refl _) fun kept => ?_
  exact Agree.bind (agree_topUp h factory _ kept) fun _ => Agree.refl _

theorem agree_breed (parents : List (Chromosome τ)) :
    Agree stops (breed ⟨factory, executor⟩ parents) (breed ⟨factory, other⟩ parents) := by
  refine Agree.ite (Agree.refl _) (Agree.bind (Agree.refl _) fun search => ?_)
  exact Agree.bind (agree_evaluating (Evaluator.agree_fitnessMatrix h parents _)) fun _ =>
    Agree.refl _

/-- The start agrees under both executors, unless it is stopped. -/
theorem agree_start :
    Agree stops (start ⟨factory, executor⟩ : SearchM ρ τ Unit) (start ⟨factory, other⟩) := by
  refine Agree.bind (Agree.refl _) fun _ => Agree.bind (Agree.refl _) fun search => ?_
  have hRest : ∀ initial, Agree stops (do
      modify fun search => { search with phase := .evaluating }
      let population ← pass ⟨factory, executor⟩ initial
      modify fun search => { search with population } : SearchM ρ τ Unit) (do
      modify fun search => { search with phase := .evaluating }
      let population ← pass ⟨factory, other⟩ initial
      modify fun search => { search with population }) := fun initial =>
    Agree.bind (Agree.refl _) fun _ => Agree.bind (agree_pass h factory initial) fun _ =>
      Agree.refl _
  exact Agree.ite (hRest []) (Agree.bind (agree_freshCandidates h factory _) hRest)

/-- A step agrees under both executors, unless it is stopped. -/
theorem agree_step :
    Agree stops (step ⟨factory, executor⟩ : SearchM ρ τ Unit) (step ⟨factory, other⟩) := by
  refine Agree.bind (Agree.refl _) fun search => Agree.bind (Agree.refl _) fun _ => ?_
  refine Agree.bind (agree_breed h factory search.population) fun offspring => ?_
  refine Agree.bind (Agree.refl _) fun _ => ?_
  exact Agree.bind (agree_pass h factory _) fun _ => Agree.refl _

/-- Every call does with the other executor what it does with the first, or it is stopped. -/
theorem agree_call (call : Call τ) :
    Agree stops (call.perform (⟨factory, executor⟩ : Problem ρ τ))
      (call.perform ⟨factory, other⟩) := by
  cases call with
  | start => exact agree_start h factory
  | step => exact agree_step h factory
  | reproduce first second => exact Agree.refl _

end Search

end WitnessSearch
