import WitnessSearch.InputVector.Basic
import WitnessSearch.Proofs.Config
import WitnessSearch.Proofs.Evaluation.Transparency
import WitnessSearch.Proofs.Search.Pass
import WitnessSearch.Random.Replay

/-! The states a search can get into. A search is made for some goals, and then it may be started,
stepped and asked for offspring in any order and as often as one likes. In all these states the open
goals are those of the archive, witnesses only accumulate, and each of them really meets its goal.
-/

namespace WitnessSearch

variable {ρ τ : Type}

namespace Search

/-- A search that was just made from a valid configuration. -/
def made (config : Config) (source : ρ) (goals : List Goal) : Search ρ τ :=
  let archive := (⟨config.multicoverTarget, []⟩ : Archive τ).registerAll goals
  { config
    source
    evaluator := .empty
    archive
    population := []
    remaining := archive.remainingGoals
    generation := 0
    phase := .uninitialized
    history := {}
    cancelled := false }

/-- The archive of a new search has the goals it was made for. -/
theorem mem_goals_made (config : Config) (source : ρ) (goals : List Goal) (goal : Goal) :
    goal ∈ (made config source goals : Search ρ τ).archive.goals ↔ goal ∈ goals := by
  refine (Archive.mem_goals_registerAll (Archive.ascending_goals_empty _) goals goal).trans ?_
  simp [Archive.goals]

/-- The goals of a new search are in ascending order, whatever order they were given in. -/
theorem ascending_goals_made (config : Config) (source : ρ) (goals : List Goal) :
    Goal.Ascending (made config source goals : Search ρ τ).archive.goals :=
  Archive.ascending_registerAll (Archive.ascending_goals_empty _) goals

theorem target_made (config : Config) (source : ρ) (goals : List Goal) :
    (made config source goals : Search ρ τ).archive.target = config.multicoverTarget :=
  Archive.target_registerAll _ goals

theorem witnesses_made (config : Config) (source : ρ) (goals : List Goal) (goal : Goal) :
    (made config source goals : Search ρ τ).archive.witnesses goal = [] :=
  Archive.witnesses_registerAll _ goals goal

/-- With a valid configuration nothing but the lack of goals stands in the way of a search. -/
theorem new_of_validate {config : Config} (source : ρ) (goals : List Goal)
    (hConfig : config.validate = .ok ()) :
    new config source goals =
      if goals = [] then .error .noGoals else .ok (made config source goals : Search ρ τ) := by
  have hTarget := (Config.validate_eq_ok_iff.mp hConfig).target
  have hEmpty : (made config source goals : Search ρ τ).archive.goals = [] ↔ goals = [] := by
    simp only [List.eq_nil_iff_forall_not_mem, mem_goals_made]
  unfold new
  simp only [hConfig, Archive.new, hTarget, ↓reduceIte, List.isEmpty_iff]
  change (if (made config source goals : Search ρ τ).archive.goals = [] then _ else _) = _
  simp only [hEmpty]
  rfl

/-- Only a valid configuration and a list with a goal make a search. -/
theorem valid_of_new {config : Config} {source : ρ} {goals : List Goal} {initial : Search ρ τ}
    (h : new config source goals = .ok initial) : config.validate = .ok () ∧ goals ≠ [] := by
  cases hConfig : config.validate with
  | error reason =>
      simp only [new, hConfig] at h
      cases h
  | ok _ =>
      rw [new_of_validate source goals hConfig] at h
      split at h
      · cases h
      · rename_i hGoals
        exact ⟨rfl, hGoals⟩

/-- There is only one search that can be made of given data. -/
theorem eq_made_of_new {config : Config} {source : ρ} {goals : List Goal} {initial : Search ρ τ}
    (h : new config source goals = .ok initial) : initial = made config source goals := by
  obtain ⟨hConfig, hGoals⟩ := valid_of_new h
  rw [new_of_validate source goals hConfig, if_neg hGoals] at h
  exact (Except.ok.inj h).symm

/-- A search that was just made has something to do. -/
theorem remaining_ne_nil_of_new {config : Config} {source : ρ} {goals : List Goal}
    {initial : Search ρ τ} (h : new config source goals = .ok initial) :
    initial.remaining ≠ [] := by
  obtain ⟨hConfig, hGoals⟩ := valid_of_new h
  obtain rfl := eq_made_of_new h
  obtain ⟨goal, hGoal⟩ := List.exists_mem_of_ne_nil goals hGoals
  have hOpen : (made config source goals : Search ρ τ).archive.isCovered goal = false := by
    simp [Archive.isCovered, Archive.witnessCount, witnesses_made, target_made,
      (Config.validate_eq_ok_iff.mp hConfig).target]
  apply List.ne_nil_of_mem
  change goal ∈ (made config source goals : Search ρ τ).archive.remainingGoals
  rw [Archive.remainingGoals_eq_filter (ascending_goals_made config source goals), List.mem_filter,
    mem_goals_made, hOpen]
  exact ⟨hGoal, rfl⟩

theorem evaluating_of_ok {α : Type} {evaluation : Evaluation α} {search : Search ρ τ} {answer : α}
    {evaluator : Evaluator} (h : evaluation search.evaluator = .ok answer evaluator) :
    evaluating evaluation search = .ok answer { search with evaluator } := by
  unfold evaluating
  simp only [h]

variable [HasCode τ]

theorem onward_made (executor : Executor τ) (config : Config) (source : ρ) (goals : List Goal) :
    Onward executor (made config source goals) (made config source goals) where
  memo := Memo.attested_empty executor
  witnesses := by
    intro goal witness hMem
    rw [witnesses_made] at hMem
    cases hMem
  ascending := ascending_goals_made config source goals
  pending := Archive.filter_remainingGoals (ascending_goals_made config source goals)
  grows := .refl _
  narrows := List.Subset.refl _
  current := rfl

variable [RandomSource ρ] [Variation ρ τ]

/-- What a search can be asked to do. -/
inductive Call (τ : Type) where
  | start
  | step
  | reproduce (first second : Chromosome τ)

/-- What a call does. The children of a reproduction are not kept. -/
def Call.perform (problem : Problem ρ τ) : Call τ → SearchM ρ τ Unit
  | .start => Search.start problem
  | .step => Search.step problem
  | .reproduce first second => do
    let _ ← Search.reproduce first second
    return ()

/-- The states that calls can lead to, none of which ended in a fault. -/
inductive Reachable (problem : Problem ρ τ) (initial : Search ρ τ) : Search ρ τ → Prop where
  | initial : Reachable problem initial initial
  | next {search next : Search ρ τ} (call : Call τ) (prior : Reachable problem initial search)
      (last : call.perform problem search = .ok () next) : Reachable problem initial next

/-- Every call keeps what holds between passes. -/
theorem keeps_call {origin : Search ρ τ} (problem : Problem ρ τ) (call : Call τ) :
    Keeps (Onward problem.executor origin) (call.perform problem) fun _ => True := by
  cases call with
  | start => exact keeps_start problem
  | step => exact keeps_step problem
  | reproduce first second =>
      apply Keeps.bind (indifferent_onward.keeps_reproduce first second)
      intro children _
      exact Keeps.pure trivial

/-- Every search that can be reached is onward. This is the induction over calls that the results
about single calls rest on. -/
theorem Reachable.onward {problem : Problem ρ τ} {initial search : Search ρ τ}
    (h : Reachable problem initial search)
    (hInitial : Onward problem.executor initial initial) :
    Onward problem.executor initial search := by
  induction h with
  | initial => exact hInitial
  | next call _ last ih => exact (keeps_call problem call ih last).2

/-- At least and at most one of a single candidate is offered, whatever the share is. -/
theorem attempts_one (fraction : Float) : attempts fraction 1 = .ok 1 := by
  rw [attempts_eq_share _ Nat.one_pos, share]
  congr 1
  omega

section Induction

variable {problem : Problem ρ τ} {goal : Goal} {row : List (Evaluated τ)} {search : Search ρ τ}

/-- Nothing is offered for a goal that no candidate meets, and nothing is used again. -/
theorem inductions_of_misses
    (hRow : evaluating (Diversity.refresh problem.executor goal row) search = .ok [] search) :
    ([(goal, row)].mapM fun entry => induct problem entry.1 entry.2) search =
      .ok [⟨[], 0⟩] search :=
  mapM_singleton_of_ok ((bind_of_ok hRow).trans rfl)

/-- If one candidate meets the goal and is accepted, nothing is left to use again. -/
theorem inductions_of_hit {hit : Evaluated τ} {next : Search ρ τ}
    (hRow : evaluating (Diversity.refresh problem.executor goal row) search = .ok [hit] search)
    (hRank : Diversity.rank goal [hit] = .ok [0])
    (hOffer : offer goal hit search = .ok none next) :
    ([(goal, row)].mapM fun entry => induct problem entry.1 entry.2) search =
      .ok [⟨[], 1⟩] next := by
  have hOrder : (ofExcept (Diversity.rank goal [hit]) : SearchM ρ τ (List Nat)) search =
      .ok [0] search := by
    rw [hRank]
    rfl
  have hCount : (ofExcept (attempts search.config.archiveFraction 1) : SearchM ρ τ Nat) search =
      .ok 1 search := by
    rw [attempts_one]
    rfl
  have hAnswers : [hit].mapM (offer goal) search = .ok [none] next := mapM_singleton_of_ok hOffer
  have hInOrder : offerInOrder goal [hit] search = .ok ⟨[], 1⟩ next := by
    unfold offerInOrder
    exact (bind_of_ok rfl).trans ((bind_of_ok hCount).trans ((bind_of_ok hAnswers).trans rfl))
  refine mapM_singleton_of_ok ((bind_of_ok hRow).trans ?_)
  exact (bind_of_ok hOrder).trans ((bind_of_ok rfl).trans hInOrder)

end Induction

section Trial

def trialCall (function : String) : Chromosome InputVector :=
  .single ⟨function, [], 0, 9⟩

def trialGoal : Goal :=
  .located "g" "unit" "f" 1

/-- Calls of two functions are drawn, and a call of one of them meets every goal. -/
def trialProblem : Problem Replay InputVector where
  factory := { fresh := do return trialCall (if (← Draw.word) = 0 then "f" else "h") }
  executor := ⟨fun chromosome _ => .ok <| .ok <|
    if chromosome.fingerprint = (trialCall "f").fingerprint then .covered none else ⟨1.0, none⟩⟩

def trialConfig : Config where
  population := { size := 2, initialization := .uniform }
  multicoverTarget := 1

/-- A search whose first two draws are one call of each function. -/
def trial : Search Replay InputVector :=
  made trialConfig (.start [0, 1] 0) [trialGoal]

def trialDrawn : Search Replay InputVector :=
  { trial with source := .start [] 0, phase := .evaluating }

def trialHit : Evaluated InputVector :=
  ⟨trialCall "f", (trialCall "f").fingerprint, trialGoal, .covered none⟩

def trialMiss : Evaluated InputVector :=
  ⟨trialCall "h", (trialCall "h").fingerprint, trialGoal, ⟨1.0, none⟩⟩

def trialOutcomes : Evaluator.Outcomes := fun fingerprint _ =>
  .ok (if fingerprint = (trialCall "f").fingerprint then .covered none else ⟨1.0, none⟩)

/-- The executor of the trial answers by the outcomes of the trial. -/
theorem execute_trial (chromosome : Chromosome InputVector) (goal : Goal) :
    trialProblem.executor.execute chromosome goal =
      .ok (trialOutcomes chromosome.fingerprint goal) :=
  rfl

theorem attested_empty : Evaluator.empty.Attested trialProblem.executor :=
  Memo.attested_empty trialProblem.executor

/-- The first call of the trial meets its goal and becomes the witness. -/
theorem trial_start :
    ∃ later, Call.start.perform trialProblem trial = .ok () later ∧
      later.archive.witnesses trialGoal = [Archive.offered (trialCall "f") none 0] := by
  obtain ⟨evaluator, hBatch, -⟩ := Evaluator.exists_evaluateBatch execute_trial attested_empty
    [trialCall "f", trialCall "h"] [trialGoal]
  let held : Search Replay InputVector :=
    { trialDrawn with
      evaluator
      archive := (trialDrawn.archive.offer trialGoal (trialCall "f") none 0).2 }
  have hRows : evaluating (Evaluator.evaluateBatch trialProblem.executor
      [trialCall "f", trialCall "h"] [trialGoal]) trialDrawn =
      .ok [[trialHit, trialMiss]] { trialDrawn with evaluator } :=
    evaluating_of_ok hBatch
  have hInductions : ([(trialGoal, [trialHit, trialMiss])].mapM fun entry =>
      induct trialProblem entry.1 entry.2) { trialDrawn with evaluator } =
      .ok [⟨[], 1⟩] held :=
    inductions_of_hit rfl rfl rfl
  have hPass : pass trialProblem [trialCall "f", trialCall "h"] trialDrawn = .ok _ _ :=
    (bind_of_ok hRows).trans ((bind_of_ok hInductions).trans rfl)
  exact ⟨_, (bind_of_ok hPass).trans rfl, rfl⟩

end Trial

/-- The open goals of a search are always those of its archive, and they are settled for good: a
call can only take goals away from them, never registers or forgets a goal, and leaves the
witnesses that are held where they are. -/
theorem call_never_reopens (config : Config) (source : ρ) (goals : List Goal)
    {problem : Problem ρ τ} {initial search next : Search ρ τ} {call : Call τ}
    (hNew : Search.new config source goals = .ok initial)
    (hSearch : Reachable problem initial search)
    (hCall : call.perform problem search = .ok () next) :
    next.remaining = next.archive.remainingGoals ∧
      next.remaining ⊆ search.remaining ∧
      (∀ goal, goal ∈ next.archive.goals ↔ goal ∈ goals) ∧
      ∀ goal, search.archive.witnesses goal <+: next.archive.witnesses goal := by
  have hInitial : Onward problem.executor initial initial := by
    rw [eq_made_of_new hNew]
    exact onward_made problem.executor config source goals
  have hBefore := hSearch.onward hInitial
  have hAfter := (keeps_call problem call hBefore.restart hCall).2
  refine ⟨hAfter.current, hAfter.narrows, ?_, hAfter.grows.witnesses⟩
  intro goal
  rw [hAfter.grows.goals, hBefore.grows.goals, eq_made_of_new hNew, mem_goals_made]

/-- The trial covers its only goal in the first call, and the goal is not open any more. -/
theorem call_never_reopens_trial :
    ∃ later : Search Replay InputVector,
      Search.new trialConfig (.start [0, 1] 0) [trialGoal] = .ok trial ∧
      Reachable trialProblem trial trial ∧
      Call.start.perform trialProblem trial = .ok () later ∧
      later.archive.witnesses trialGoal = [Archive.offered (trialCall "f") none 0] ∧
      later.remaining = later.archive.remainingGoals ∧
      later.remaining ⊆ trial.remaining ∧
      (∀ goal, goal ∈ later.archive.goals ↔ goal ∈ [trialGoal]) ∧
      ∀ goal, trial.archive.witnesses goal <+: later.archive.witnesses goal := by
  obtain ⟨later, hStart, hHeld⟩ := trial_start
  have hNew : Search.new trialConfig (.start [0, 1] 0) [trialGoal] = .ok trial := rfl
  exact ⟨later, hNew, .initial, hStart, hHeld,
    call_never_reopens trialConfig (.start [0, 1] 0) [trialGoal] hNew .initial hStart⟩

/-- No witness is false. A search can be made from any valid configuration and any goals, and
whatever it is asked to do then, a witness it holds for a goal met that goal, and its observation
is what was observed. The executor may only look at fingerprints and goals, since candidates with
one fingerprint count as one. -/
theorem witness_meets_goal (config : Config) (source : ρ) (goals : List Goal)
    (problem : Problem ρ τ) (hConfig : config.validate = .ok ()) (hGoals : goals ≠ [])
    (hExecutor : problem.executor.ByFingerprint) :
    ∃ initial, Search.new config source goals = .ok initial ∧
      ∀ search, Reachable problem initial search →
        ∀ goal, ∀ witness ∈ search.archive.witnesses goal,
          goal ∈ goals ∧
          witness.fingerprint = witness.chromosome.fingerprint ∧
          ∃ execution, problem.executor.execute witness.chromosome goal = .ok (.ok execution) ∧
            (execution.fitness == 0.0) = true ∧
            witness.observation = execution.observation.getD .empty := by
  refine ⟨made config source goals, ?_, ?_⟩
  · rw [new_of_validate source goals hConfig, if_neg hGoals]
  · intro search hReachable goal witness hMem
    have h := hReachable.onward (onward_made problem.executor config source goals)
    obtain ⟨hFingerprint, execution, hAttested, hCovered, hObservation⟩ :=
      h.witnesses goal witness hMem
    refine ⟨?_, hFingerprint, execution, ?_, hCovered, hObservation⟩
    · rw [← mem_goals_made config source goals goal, ← h.grows.goals]
      by_contra hUnknown
      rw [Archive.witnesses_of_not_mem hUnknown] at hMem
      cases hMem
    · rw [hFingerprint] at hAttested
      exact Executor.execute_of_verdict (hAttested.verdict_eq hExecutor) hCovered

/-- The trial gets to hold a witness, and the witness is not a false one. -/
theorem witness_meets_goal_trial :
    trialConfig.validate = .ok () ∧ [trialGoal] ≠ [] ∧ trialProblem.executor.ByFingerprint ∧
    ∃ initial, Search.new trialConfig (.start [0, 1] 0) [trialGoal] = .ok initial ∧
      ∃ search, Reachable trialProblem initial search ∧
        ∃ witness ∈ search.archive.witnesses trialGoal,
          witness = Archive.offered (trialCall "f") none 0 ∧
          ∃ execution, trialProblem.executor.execute witness.chromosome trialGoal =
              .ok (.ok execution) ∧ (execution.fitness == 0.0) = true := by
  have hExecutor : trialProblem.executor.ByFingerprint := by
    intro c d goal hSame
    simp only [trialProblem, hSame]
  obtain ⟨initial, hNew, hWitnesses⟩ := witness_meets_goal trialConfig (.start [0, 1] 0)
    [trialGoal] trialProblem rfl (by decide) hExecutor
  obtain rfl : initial = trial := eq_made_of_new hNew
  obtain ⟨later, hStart, hHeld⟩ := trial_start
  have hReachable : Reachable trialProblem trial later := .next .start .initial hStart
  have hMem : Archive.offered (trialCall "f") none 0 ∈ later.archive.witnesses trialGoal := by
    rw [hHeld]
    exact List.mem_singleton_self _
  obtain ⟨-, -, execution, hExecute, hZero, -⟩ := hWitnesses later hReachable trialGoal _ hMem
  exact ⟨rfl, by decide, hExecutor, trial, hNew, later, hReachable, _, hMem, rfl, execution,
    hExecute, hZero⟩

end Search

end WitnessSearch
