import WitnessSearch.Proofs.Search.Advance
import WitnessSearch.Proofs.Search.Stages
import WitnessSearch.Search.Run

/-! The course of a run: the start and then generation after generation, each of them begun because
the signal before it gave no reason to stop. A run follows its course to an end, and its budget
never cuts it short. What is known of the search in between comes from one induction on the course.
-/

namespace WitnessSearch.Search

variable {ρ τ : Type}

section Reasons

variable {search : Search ρ τ} {elapsed : Duration} {reason : StopReason}

/-- What each reason to stop is given for. A later reason is only given when the earlier ones do not
apply. -/
theorem stopReason_eq_some :
    search.stopReason elapsed = some reason → match reason with
    | .cancelled => search.cancelled = true
    | .allGoalsCovered => search.cancelled = false ∧ search.remaining = []
    | .maxGenerations => search.cancelled = false ∧ search.remaining ≠ [] ∧
        search.config.population.maxGenerations ≤ search.generation
    | .deadline => search.cancelled = false ∧ search.remaining ≠ [] ∧
        search.generation < search.config.population.maxGenerations ∧
        ∃ budget, search.config.timeBudget = some budget ∧
          budget.nanoseconds ≤ elapsed.nanoseconds := by
  intro h
  simp only [stopReason, List.isEmpty_iff] at h
  by_cases hCancelled : search.cancelled = true
  · rw [if_pos hCancelled] at h
    cases h
    exact hCancelled
  rw [if_neg hCancelled] at h
  rw [Bool.not_eq_true] at hCancelled
  by_cases hOpen : search.remaining = []
  · rw [if_pos hOpen] at h
    cases h
    exact ⟨hCancelled, hOpen⟩
  rw [if_neg hOpen] at h
  by_cases hLast : search.config.population.maxGenerations ≤ search.generation
  · rw [if_pos hLast] at h
    cases h
    exact ⟨hCancelled, hOpen, hLast⟩
  rw [if_neg hLast] at h
  cases hBudget : search.config.timeBudget with
  | none =>
      rw [hBudget] at h
      cases h
  | some budget =>
      simp only [hBudget, Option.ite_none_right_eq_some, Option.some.injEq] at h
      obtain ⟨hElapsed, rfl⟩ := h
      exact ⟨hCancelled, hOpen, Nat.lt_of_not_le hLast, budget, rfl, hElapsed⟩

/-- A run goes on with open goals and generations left. -/
theorem stopReason_eq_none (h : search.stopReason elapsed = none) :
    search.cancelled = false ∧ search.remaining ≠ [] ∧
      search.generation < search.config.population.maxGenerations := by
  simp only [stopReason, List.isEmpty_iff] at h
  split at h
  · cases h
  · rename_i hCancelled
    split at h
    · cases h
    · rename_i hOpen
      split at h
      · cases h
      · rename_i hLast
        exact ⟨Bool.not_eq_true _ ▸ hCancelled, hOpen, Nat.lt_of_not_le hLast⟩

/-- At the bound on the generations there is a reason to stop, whatever the clock says. -/
theorem exists_stopReason (elapsed : Duration)
    (h : search.config.population.maxGenerations ≤ search.generation) :
    ∃ reason, search.stopReason elapsed = some reason := by
  refine Option.ne_none_iff_exists'.mp fun hNone => ?_
  have hLeft := (stopReason_eq_none hNone).2.2
  omega

end Reasons

/-- The books of a new search are empty, and they balance. -/
theorem balanced_made (config : Config) (source : ρ) (goals : List Goal) :
    Balanced (made config source goals : Search ρ τ) 0 where
  remainingGoals := rfl
  archiveSize := rfl
  cacheEntries := rfl
  accepted := rfl
  falls := List.pairwise_singleton _ _
  rises := List.pairwise_singleton _ _
  sums _ hi := absurd hi (Nat.not_lt_zero _)
  total := Archive.size_registerAll (Archive.ascending_goals_empty _) goals

variable [HasCode τ] [RandomSource ρ] [Variation ρ τ]

/-- Where a run on given signals stands after so many generations, and what it has reported so
far. -/
inductive Course (problem : Problem ρ τ) (signals : Nat → Signal) (initial : Search ρ τ) :
    Nat → List SearchProgress → Search ρ τ → Prop where
  | started {search : Search ρ τ} (first : start problem initial = .ok () search) :
      Course problem signals initial 0 [search.progress] search
  | stepped {n : Nat} {reports : List SearchProgress} {search next : Search ρ τ}
      (prior : Course problem signals initial n reports search)
      (goesOn : (search.heed (signals n)).stopReason (signals n).elapsed = none)
      (last : step problem (search.heed (signals n)) = .ok () next) :
      Course problem signals initial (n + 1) (reports ++ [next.progress]) next

/-- The ways in which a run ends, with what it has reported until then. -/
inductive Ends (problem : Problem ρ τ) (signals : Nat → Signal) (initial : Search ρ τ) :
    Outcome ρ τ → List SearchProgress → Prop where
  | unstarted {fault : Fault} {search : Search ρ τ}
      (first : start problem initial = .error fault search) :
      Ends problem signals initial (.error fault search) []
  | broken {n : Nat} {reports : List SearchProgress} {search next : Search ρ τ} {fault : Fault}
      (course : Course problem signals initial n reports search)
      (goesOn : (search.heed (signals n)).stopReason (signals n).elapsed = none)
      (last : step problem (search.heed (signals n)) = .error fault next) :
      Ends problem signals initial (.error fault next) reports
  | stopped {n : Nat} {reports : List SearchProgress} {search : Search ρ τ} {reason : StopReason}
      (course : Course problem signals initial n reports search)
      (stops : (search.heed (signals n)).stopReason (signals n).elapsed = some reason) :
      Ends problem signals initial ((search.heed (signals n)).finish reason (signals n).elapsed)
        reports

/-- What is known of a search in the course of a run. -/
structure Standing (executor : Executor τ) (initial : Search ρ τ) (n : Nat)
    (search : Search ρ τ) : Prop where
  onward : Onward executor initial search
  config : search.config = initial.config
  cancelled : search.cancelled = false
  generation : search.generation = n
  runs : initial.evaluator.Thrifty search.evaluator
  bounded : search.archive.Bounded
  balanced : search.Balanced (n + 1)

/-- What a run does next on given signals, in one equation: it heeds the signal, looks for a reason
to stop, and makes a step. -/
theorem run_continueWith (problem : Problem ρ τ) (signals : Nat → Signal) (budget : Nat)
    (search : Search ρ τ) (log : RunLog) :
    (continueWith (scripted signals) problem budget search).run log =
      let current := search.heed (signals log.taken)
      match current.stopReason (signals log.taken).elapsed with
      | some reason =>
        (current.finish reason (signals log.taken).elapsed, ⟨log.taken + 1, log.reports⟩)
      | none =>
        match budget with
        | 0 => (.error .endlessRun current, ⟨log.taken + 1, log.reports⟩)
        | budget + 1 =>
          match step problem current with
          | .error fault next => (.error fault next, ⟨log.taken + 1, log.reports⟩)
          | .ok _ next => (continueWith (scripted signals) problem budget next).run
              ⟨log.taken + 1, next.progress :: log.reports⟩ := by
  rw [continueWith]
  simp only [scripted, StateT.run_bind, StateT.run_modifyGet, pure_bind]
  cases (search.heed (signals log.taken)).stopReason (signals log.taken).elapsed with
  | some reason => rfl
  | none =>
      cases budget with
      | zero => rfl
      | succ budget => cases step problem (search.heed (signals log.taken)) <;> rfl

/-- A run starts the search, reports it, and goes on. -/
theorem run_eq (problem : Problem ρ τ) (signals : Nat → Signal) (search : Search ρ τ) :
    run problem signals search = match start problem search with
      | .error fault next => .error fault next
      | .ok _ next =>
        let ending := (continueWith (scripted signals) problem
          next.config.population.maxGenerations next).run ⟨0, [next.progress]⟩
        match ending.1 with
        | .ok result final => .ok (result, ending.2.reports.reverse) final
        | .error fault final => .error fault final := by
  simp only [run, runWith]
  cases start problem search <;> rfl

/-- A step that is taken leaves a standing search standing, one generation later. -/
theorem Standing.advance {problem : Problem ρ τ} {initial search next : Search ρ τ} {n : Nat}
    {signal : Signal} (h : Standing problem.executor initial n search)
    (goesOn : (search.heed signal).stopReason signal.elapsed = none)
    (last : step problem (search.heed signal) = .ok () next) :
    Standing problem.executor initial (n + 1) next := by
  obtain ⟨hCancelled, hOpen, -⟩ := stopReason_eq_none goesOn
  have hOnward : Onward problem.executor initial (search.heed signal) := h.onward.congr rfl rfl rfl
  have hBalanced : Balanced (search.heed signal) (n + 1) := { h.balanced with }
  have hNext := ensures_step problem hOpen hOnward.nodup rfl last
  obtain ⟨accepted, hTakes, -⟩ := hNext.recorded
  exact {
    onward := (keeps_step problem hOnward last).2
    config := hNext.config.trans h.config
    cancelled := hNext.cancelled.trans hCancelled
    generation := hNext.generation.trans (congrArg (· + 1) h.generation)
    runs := h.runs.trans hNext.runs
    bounded := hTakes.bounded h.bounded
    balanced := hBalanced.advance hOnward.ascending hNext }

/-- A search that was started stands at the beginning of its course. -/
theorem standing_of_start {config : Config} {source : ρ} {goals : List Goal} {problem : Problem ρ τ}
    {initial search : Search ρ τ} (hNew : new config source goals = .ok initial)
    (first : start problem initial = .ok () search) :
    Standing problem.executor initial 0 search := by
  have hOpen := remaining_ne_nil_of_new hNew
  obtain rfl := eq_made_of_new hNew
  have hOnward := onward_made problem.executor config source goals
  have hNext := ensures_start problem hOpen hOnward.nodup rfl first
  obtain ⟨accepted, hTakes, -⟩ := hNext.recorded
  exact {
    onward := (keeps_start problem hOnward first).2
    config := hNext.config
    cancelled := hNext.cancelled
    generation := hNext.generation
    runs := hNext.runs
    bounded := by
      apply hTakes.bounded
      intro goal
      rw [Archive.witnessCount, witnesses_made]
      exact Nat.zero_le _
    balanced := (balanced_made config source goals).advance hOnward.ascending hNext }

section Run

variable {config : Config} {source : ρ} {goals : List Goal} {problem : Problem ρ τ}
  {signals : Nat → Signal} {initial : Search ρ τ} (hNew : new config source goals = .ok initial)
include hNew

/-- Wherever a course has got to, the search stands there, with as many generations as steps were
taken. -/
theorem Course.standing {n : Nat} {reports : List SearchProgress} {search : Search ρ τ}
    (h : Course problem signals initial n reports search) :
    Standing problem.executor initial n search := by
  induction h with
  | started first => exact standing_of_start hNew first
  | stepped _ goesOn last ih => exact ih.advance goesOn last

/-- A course goes on only below the bound on the generations. -/
theorem Course.lt_maxGenerations {n : Nat} {reports : List SearchProgress} {search : Search ρ τ}
    (h : Course problem signals initial n reports search)
    (goesOn : (search.heed (signals n)).stopReason (signals n).elapsed = none) :
    n < initial.config.population.maxGenerations := by
  have hStanding := h.standing hNew
  have hLeft := (stopReason_eq_none goesOn).2.2
  rw [← hStanding.config]
  exact hStanding.generation ▸ hLeft

/-- No course takes more steps than the bound on the generations. -/
theorem Course.le_maxGenerations {n : Nat} {reports : List SearchProgress} {search : Search ρ τ}
    (h : Course problem signals initial n reports search) :
    n ≤ initial.config.population.maxGenerations := by
  cases h with
  | started _ => exact Nat.zero_le _
  | stepped prior goesOn _ => exact prior.lt_maxGenerations hNew goesOn

/-- From anywhere on a course the loop reaches the end of it, with a budget of the generations that
remain. The budget is therefore never what ends a run. -/
theorem continueWith_ends {n budget : Nat} {reports : List SearchProgress} {search : Search ρ τ}
    (h : Course problem signals initial n reports search)
    (hBudget : n + budget = initial.config.population.maxGenerations) :
    let ending := (continueWith (scripted signals) problem budget search).run ⟨n, reports.reverse⟩
    Ends problem signals initial ending.1 ending.2.reports.reverse := by
  induction budget generalizing n reports search with
  | zero =>
      have hStanding := h.standing hNew
      have hLast : search.config.population.maxGenerations ≤ search.generation := by
        rw [hStanding.config, hStanding.generation, ← hBudget]
        exact Nat.le_refl _
      obtain ⟨reason, hReason⟩ : ∃ reason,
          (search.heed (signals n)).stopReason (signals n).elapsed = some reason :=
        exists_stopReason _ hLast
      rw [run_continueWith]
      simp only [hReason, List.reverse_reverse]
      exact .stopped h hReason
  | succ budget ih =>
      rw [run_continueWith]
      cases hReason : (search.heed (signals n)).stopReason (signals n).elapsed with
      | some reason =>
          simp only [hReason, List.reverse_reverse]
          exact .stopped h hReason
      | none =>
          cases hStep : step problem (search.heed (signals n)) with
          | error fault next =>
              simp only [hReason, hStep, List.reverse_reverse]
              exact .broken h hReason hStep
          | ok _ next =>
              have hNext := ih (h.stepped hReason hStep) (by omega)
              rw [List.reverse_append] at hNext
              simp only [hReason, hStep]
              exact hNext

/-- A run ends in one of the ways in which its course can end. -/
theorem exists_ends (problem : Problem ρ τ) (signals : Nat → Signal) :
    ∃ outcome reports, Ends problem signals initial outcome reports ∧
      run problem signals initial = match outcome with
        | .ok result search => .ok (result, reports) search
        | .error fault search => .error fault search := by
  rw [run_eq]
  cases hStart : start problem initial with
  | error fault search => exact ⟨_, _, .unstarted hStart, rfl⟩
  | ok _ search =>
      have hStanding := standing_of_start hNew hStart
      have hBudget : 0 + search.config.population.maxGenerations =
          initial.config.population.maxGenerations := by
        rw [hStanding.config, Nat.zero_add]
      exact ⟨_, _, continueWith_ends hNew (.started hStart) hBudget, rfl⟩

/-- A run that has a result stopped for a reason, and the result shows the search it leaves. -/
theorem exists_course_of_run {result : SearchResult τ} {reports : List SearchProgress}
    {final : Search ρ τ} (h : run problem signals initial = .ok (result, reports) final) :
    ∃ n search reason, Course problem signals initial n reports search ∧
      (search.heed (signals n)).stopReason (signals n).elapsed = some reason ∧
      final = { search.heed (signals n) with phase := .terminated } ∧
      result = final.result reason (signals n).elapsed := by
  obtain ⟨outcome, reports', hEnds, hRun⟩ := exists_ends hNew problem signals
  rw [hRun] at h
  cases hEnds with
  | unstarted _ => cases h
  | broken _ _ _ => cases h
  | stopped course stops =>
      cases h
      exact ⟨_, _, _, course, stops, rfl, rfl⟩

/-- A search that has covered every goal with its start makes no step, and has a result. -/
theorem exists_run_of_closed {search : Search ρ τ} (first : start problem initial = .ok () search)
    (hClosed : search.remaining = []) (signals : Nat → Signal) :
    ∃ result reports final, run problem signals initial = .ok (result, reports) final := by
  obtain ⟨outcome, reports, hEnds, hRun⟩ := exists_ends hNew problem signals
  have hCourse : ∀ {n reports later}, Course problem signals initial n reports later →
      later.remaining = [] := by
    intro n reports later h
    induction h with
    | started again => exact (EStateM.Result.ok.inj (first.symm.trans again)).2 ▸ hClosed
    | stepped _ goesOn _ ih => exact absurd ih (stopReason_eq_none goesOn).2.1
  cases hEnds with
  | unstarted fault => cases first.symm.trans fault
  | broken course goesOn _ => exact absurd (hCourse course) (stopReason_eq_none goesOn).2.1
  | stopped course stops => exact ⟨_, _, _, hRun⟩

end Run

section Late

/-- Nothing is left to chance in the breeding of this search: every two parents are crossed and all
children are mutated, which leaves calls without arguments as they are. -/
def lateConfig : Config :=
  { trialConfig with crossoverRate := 1.0, mutationRate := 1.0, selection := .random }

/-- A search that begins with two calls of the function that misses the goal. -/
def late : Search Replay InputVector :=
  made lateConfig (.start [1, 1, 0, 0, 0] 0) [trialGoal]

def lateDrawn : Search Replay InputVector :=
  { late with source := .start [0, 0, 0] 0, phase := .evaluating }

/-- The search after its start. One of the calls is kept, and a call that meets the goal was drawn
in place of the other. -/
def lateStarted (evaluator : Evaluator) : Search Replay InputVector :=
  { late with
    source := .start [0, 0] 0
    evaluator
    population := [trialCall "h", trialCall "f"]
    phase := .evaluating
    history := ⟨[1], [0], [evaluator.memo.size], [0]⟩ }

def lateStages (evaluator : Evaluator) (ranking : Ranking) : Stages Replay InputVector where
  rows := [[trialMiss, trialMiss]]
  evaluator
  inductions := [⟨[], 0⟩]
  offered := { lateDrawn with evaluator }
  ranking
  kept := [trialCall "h"]
  topped := { lateDrawn with evaluator, source := .start [0, 0] 0 }

/-- The first pass of the late search meets one candidate twice, and a fresh one is put in the place
of the repetition. -/
theorem late_lead : ∃ evaluator ranking, evaluator.Attested trialProblem.executor ∧
    (lateStages evaluator ranking).Lead trialProblem [trialCall "h", trialCall "h"] lateDrawn
      [trialCall "h", trialCall "f"] { lateStarted evaluator with population := [] } := by
  obtain ⟨evaluator, hBatch, hAttested⟩ := Evaluator.exists_evaluateBatch execute_trial
    attested_empty [trialCall "h", trialCall "h"] [trialGoal]
  obtain ⟨ranking, hRanking, hKept⟩ : ∃ ranking,
      rankContenders lateConfig.ranking late.archive
        [⟨trialCall "h", [1.0]⟩, ⟨trialCall "h", [1.0]⟩] = .ok ranking ∧
      survivors 2 [] [⟨trialCall "h", [1.0]⟩, ⟨trialCall "h", [1.0]⟩] ranking =
        .ok [trialCall "h"] :=
    exists_survivors_of_eval (by decide +kernel)
  exact ⟨evaluator, ranking, hAttested,
    ⟨hBatch, inductions_of_misses rfl, hRanking, hKept, rfl, rfl⟩⟩

/-- The start of the late search answers, and all but the memo of where it leads is known. -/
theorem late_start : ∃ evaluator, evaluator.Attested trialProblem.executor ∧
    start trialProblem late = .ok () (lateStarted evaluator) := by
  obtain ⟨evaluator, ranking, hAttested, hLead⟩ := late_lead
  exact ⟨evaluator, hAttested,
    (bind_of_ok (pass_of_lead hLead (List.cons_ne_nil _ _))).trans rfl⟩

/-- Both parents of the only litter are the call that misses the goal. -/
theorem late_litter (search : Search Replay InputVector) (hConfig : search.config = lateConfig)
    (first second : Float) :
    litter #[trialCall "h", trialCall "f"] #[first, second]
        { search with source := Replay.start [0, 0] 0 } =
      .ok [trialCall "h", trialCall "h"] { search with source := Replay.start [] 0 } := by
  have hMethod : selectIndex search.config.selection #[first, second] =
      (Draw.index 2 : Draw Replay Nat) := by
    rw [hConfig]
    rfl
  have hSelect : ∀ words, (drawing (selectIndex search.config.selection #[first, second]) :
      SearchM Replay InputVector Nat) { search with source := Replay.start (0 :: words) 0 } =
      .ok 0 { search with source := Replay.start words 0 } := by
    intro words
    rw [hMethod]
    rfl
  have hChildren : (reproduce (trialCall "h") (trialCall "h") : SearchM Replay InputVector _)
      { search with source := Replay.start [] 0 } =
      .ok (trialCall "h", trialCall "h") { search with source := Replay.start [] 0 } := by
    refine (bind_of_ok rfl).trans ?_
    dsimp only
    rw [hConfig]
    rfl
  unfold litter
  refine (bind_of_ok rfl).trans ?_
  refine (bind_of_ok (hSelect [0])).trans ((bind_of_ok (hSelect [])).trans ?_)
  exact (bind_of_ok rfl).trans ((bind_of_ok rfl).trans ((bind_of_ok hChildren).trans rfl))

/-- The offspring of the late search are two copies of its first member. Crossing them and mutating
them changes nothing, since they have no arguments. -/
theorem late_breed {evaluator : Evaluator} (h : evaluator.Attested trialProblem.executor) :
    let bred : Search Replay InputVector :=
      { lateStarted evaluator with phase := .evolving, population := [] }
    ∃ next, next.Attested trialProblem.executor ∧
      breed trialProblem [trialCall "h", trialCall "f"] bred =
        .ok [trialCall "h", trialCall "h"]
          { bred with source := Replay.start [] 0, evaluator := next } := by
  intro bred
  obtain ⟨next, hMatrix, hNext⟩ := Evaluator.exists_fitnessMatrix execute_trial h
    [trialCall "h", trialCall "f"] [trialGoal]
  have hScores : evaluating (Evaluator.fitnessMatrix trialProblem.executor
      [trialCall "h", trialCall "f"] [trialGoal]) bred = .ok _ { bred with evaluator := next } :=
    evaluating_of_ok hMatrix
  have hLitters (first second : Float) : ((List.replicate 1 ()).mapM fun _ =>
      litter #[trialCall "h", trialCall "f"] #[first, second])
      { bred with evaluator := next } =
      .ok [[trialCall "h", trialCall "h"]]
        { bred with source := Replay.start [] 0, evaluator := next } :=
    mapM_singleton_of_ok (late_litter { bred with evaluator := next } rfl first second)
  refine ⟨next, hNext, ?_⟩
  unfold breed
  exact (bind_of_ok rfl).trans ((bind_of_ok hScores).trans ((bind_of_ok (hLitters _ _)).trans rfl))

def lateArchive : Archive InputVector :=
  (late.archive.offer trialGoal (trialCall "f") none 0).2

/-- The first step offers the call that meets the goal, and it becomes the witness. Its parents and
its offspring miss the goal and are all alike, so the population is short from then on. -/
theorem late_step {evaluator : Evaluator} (h : evaluator.Attested trialProblem.executor) :
    ∃ after, step trialProblem (lateStarted evaluator) = .ok () after ∧
      after.stopReason ⟨0⟩ = some .allGoalsCovered ∧ after.generation = 1 ∧
      after.population = [trialCall "h"] ∧ after.history.accepted = [0, 1] ∧
      after.archive = lateArchive := by
  obtain ⟨bredEvaluator, hBred, hBreed⟩ := late_breed h
  let candidates := [trialCall "h", trialCall "f", trialCall "h", trialCall "h"]
  let row := [trialMiss, trialHit, trialMiss, trialMiss]
  obtain ⟨judge, hBatch, -⟩ :=
    Evaluator.exists_evaluateBatch execute_trial hBred candidates [trialGoal]
  obtain ⟨ranking, hRanking, hKept⟩ : ∃ ranking,
      rankContenders lateConfig.ranking lateArchive
        (List.replicate 3 ⟨trialCall "h", []⟩) = .ok ranking ∧
      survivors 2 [] (List.replicate 3 ⟨trialCall "h", []⟩) ranking = .ok [trialCall "h"] :=
    exists_survivors_of_eval (by decide +kernel)
  let before : Search Replay InputVector :=
    { lateStarted bredEvaluator with
      source := Replay.start [] 0
      population := []
      history := ⟨[1], [0], [evaluator.memo.size], [0]⟩ }
  let judged : Search Replay InputVector := { before with evaluator := judge }
  let held : Search Replay InputVector := { judged with archive := lateArchive }
  have hInductions : ([(trialGoal, row)].mapM fun entry =>
      induct trialProblem entry.1 entry.2) judged = .ok [⟨[], 1⟩] held :=
    inductions_of_hit rfl rfl rfl
  let stages : Stages Replay InputVector :=
    ⟨[row], judge, [⟨[], 1⟩], held, ranking, [trialCall "h"], { held with remaining := [] }⟩
  have hLead : stages.Lead trialProblem candidates before [trialCall "h"] _ :=
    ⟨hBatch, hInductions, hRanking, hKept, rfl, rfl⟩
  have hPass := pass_of_lead hLead (List.cons_ne_nil _ _)
  exact ⟨_, (bind_of_ok hBreed).trans ((bind_of_ok hPass).trans rfl), rfl, rfl, rfl, rfl, rfl⟩

/-- The run makes one step and stops because the goal is covered. -/
theorem exists_late_run :
    ∃ result reports final,
      run trialProblem (fun _ => ⟨⟨0⟩, none⟩) late = .ok (result, reports) final ∧
      result.history.accepted = [0, 1] ∧ result.stats.generations = 1 ∧
      result.stats.stopReason = .allGoalsCovered ∧ final.archive = lateArchive := by
  obtain ⟨evaluator, hAttested, hStart⟩ := late_start
  obtain ⟨after, hStep, hStops, hGeneration, -, hAccepted, hArchive⟩ := late_step hAttested
  let quiet : Nat → Signal := fun _ => ⟨⟨0⟩, none⟩
  have hSecond (log : RunLog) :
      (continueWith (scripted quiet) trialProblem 49 after).run log =
        (after.finish .allGoalsCovered ⟨0⟩, ⟨log.taken + 1, log.reports⟩) := by
    rw [run_continueWith, show after.heed (quiet log.taken) = after from rfl]
    dsimp only [quiet]
    rw [hStops]
  have hFirst (log : RunLog) :
      (continueWith (scripted quiet) trialProblem 50 (lateStarted evaluator)).run log =
        (after.finish .allGoalsCovered ⟨0⟩, ⟨log.taken + 2, after.progress :: log.reports⟩) := by
    have hGoesOn : (lateStarted evaluator).stopReason ⟨0⟩ = none := rfl
    rw [run_continueWith,
      show (lateStarted evaluator).heed (quiet log.taken) = lateStarted evaluator from rfl]
    dsimp only [quiet]
    rw [hGoesOn, hStep]
    exact hSecond _
  refine ⟨after.result .allGoalsCovered ⟨0⟩, [(lateStarted evaluator).progress, after.progress],
    { after with phase := .terminated }, ?_, hAccepted, hGeneration, rfl, hArchive⟩
  rw [run_eq, hStart]
  dsimp only
  rw [show (lateStarted evaluator).config.population.maxGenerations = 50 from rfl, hFirst]
  rfl

end Late

end WitnessSearch.Search
