import WitnessSearch.Proofs.Search.Course

/-! What a population is made of. A pass with open goals replaces the population by the candidates
to use again, the best of those that met no goal, and fresh candidates, in this order. It is
complete unless the pass covered the last goal. -/

namespace WitnessSearch

variable {ρ τ : Type}

/-- How a population came about. -/
structure Renewal (τ : Type) where
  /-- The candidates that were evaluated. -/
  evaluated : List (Chromosome τ)
  /-- What was done with those that met a goal, goal by goal. -/
  dealings : List (Dealing τ)
  /-- The survivors that are used again. -/
  reused : List (Chromosome τ)
  /-- The survivors that met no goal. -/
  ranked : List (Chromosome τ)
  fresh : List (Chromosome τ)

namespace Search

variable [HasCode τ] [RandomSource ρ] [Variation ρ τ] {problem : Problem ρ τ}

/-- The renewal leads from one search to the other. -/
structure Renews (problem : Problem ρ τ) (before : Search ρ τ) (renewal : Renewal τ)
    (after : Search ρ τ) : Prop where
  population : after.population = (renewal.reused ++ renewal.ranked) ++ renewal.fresh
  distinct : ((renewal.reused ++ renewal.ranked).map Chromosome.fingerprint).Nodup
  /-- Every candidate was evaluated against every open goal. -/
  known : ∀ chromosome ∈ renewal.evaluated, ∀ goal ∈ before.remaining,
    after.evaluator.knows chromosome goal = true
  goals : renewal.dealings.map (·.goal) = before.remaining
  /-- For each goal, the candidates that met it were either offered or withheld. -/
  parted : ∀ dealing ∈ renewal.dealings,
    (dealing.attempts.map (·.offer.chromosome) ++ dealing.withheld).Perm
      (renewal.evaluated.filter (after.evaluator.meets · dealing.goal))
  observed : ∀ dealing ∈ renewal.dealings, ∀ attempt ∈ dealing.attempts, ∃ execution,
    after.evaluator.memo.peek? attempt.offer.chromosome.fingerprint dealing.goal =
      some execution ∧ attempt.offer.observation = execution.observation
  /-- A rejected candidate came back mutated, and an accepted one did not come back. -/
  fair : ∀ dealing ∈ renewal.dealings, ∀ attempt ∈ dealing.attempts, attempt.Fair ρ
  answers : before.archive.Answers (renewal.dealings.flatMap Dealing.log) after.archive
  reused : renewal.reused.Sublist (renewal.dealings.flatMap Dealing.recycled)
  ranked : ∀ chromosome ∈ renewal.ranked, chromosome ∈ renewal.evaluated ∧
    ∀ goal ∈ before.remaining, after.evaluator.meets chromosome goal = false
  supplied : ∀ chromosome ∈ renewal.fresh,
    problem.factory.Supplies after.remaining chromosome
  /-- Fresh candidates were asked for last, and all in one go. -/
  drawn : renewal.fresh = [] ∨ ∃ prior later : Search ρ τ,
    prior.remaining = after.remaining ∧
      freshCandidates problem renewal.fresh.length prior = .ok renewal.fresh later ∧
      later.source = after.source ∧ later.evaluator = after.evaluator
  closed : after.remaining = [] → renewal.fresh = []

/-- The population is as large as it has to be. -/
structure Complete (search : Search ρ τ) : Prop where
  le : search.population.length ≤ search.config.population.size
  eq : search.remaining ≠ [] → search.population.length = search.config.population.size

/-- With open goals a pass renews the population: the candidates to use again come first, then the
ranked ones, and fresh ones fill the places that are left. -/
theorem renews_of_pass {candidates next : List (Chromosome τ)} {before after : Search ρ τ}
    (h : pass problem candidates before = .ok next after) (hOpen : before.remaining ≠ [])
    (hGoals : before.remaining.Nodup) :
    after.config = before.config ∧ Complete { after with population := next } ∧
      ∃ renewal, renewal.evaluated = candidates ∧
        Renews problem before renewal { after with population := next } := by
  obtain ⟨stages, hLead⟩ := ensures_stages hOpen rfl h
  obtain ⟨dealings, hInductions, hSame, hHandles, hOffering⟩ := hLead.exists_dealings hGoals
  obtain ⟨hDistinct, -, reused, ranked, hKept, hReused, hRanked⟩ := survivors_eq_ok hLead.survived
  obtain ⟨-, hSize, hFull, fresh, hNext, hSupplied, hDrawn, hClosed⟩ := hLead.exists_fresh
  have hAfter := hLead.after_eq hGoals
  have hRows := hLead.records hGoals
  have hConfig : after.config = before.config := congrArg (·.config) hAfter
  have hRemaining : after.remaining = stages.remaining := congrArg (·.remaining) hAfter
  have hArchive : after.archive = stages.offered.archive := congrArg (·.archive) hAfter
  have hDealing : ∀ dealing ∈ dealings, ∃ row,
      dealing.Settles ρ before.generation dealing.goal row ∧
      after.evaluator.RecordsRow candidates dealing.goal row := by
    intro dealing hMem
    obtain ⟨⟨goal, row⟩, hEntry, hHandled⟩ := exists_left_of_related hHandles hMem
    obtain rfl := hHandled.goal_eq
    exact ⟨row, hHandled.settles, List.forall₂_zip hRows hEntry⟩
  refine ⟨hConfig, ⟨?_, ?_⟩, ⟨candidates, dealings, reused, ranked, fresh⟩, rfl, ?_⟩
  · exact hConfig ▸ hSize
  · exact fun hLater => hConfig ▸ hFull fun hNone => hLater (hRemaining.trans hNone)
  · exact {
      population := hKept ▸ hNext
      distinct := hKept ▸ hDistinct
      known := fun _ hMem _ hGoal => Evaluator.knows_of_rows hRows hMem hGoal
      goals := hSame
      parted := by
        intro dealing hMem
        obtain ⟨row, hSettled, hRow⟩ := hDealing dealing hMem
        exact Evaluator.map_filter_isCovered hRow ▸ hSettled.parted
      observed := by
        intro dealing hMem attempt hAttempt
        obtain ⟨row, hSettled, hRow⟩ := hDealing dealing hMem
        obtain ⟨candidate, hCandidate, -, hOffer⟩ := hSettled.offers attempt hAttempt
        obtain ⟨_, -, -, hGoal, hRecord⟩ := exists_left_of_related hRow hCandidate
        refine ⟨candidate.execution, ?_, by rw [hOffer]⟩
        rw [hOffer, ← hGoal, ← hRecord.fingerprint]
        exact hRecord.execution
      fair := by
        intro dealing hMem
        obtain ⟨row, hSettled, -⟩ := hDealing dealing hMem
        exact hSettled.fair
      answers := hArchive ▸ hOffering.answers
      reused := by
        rw [Stages.recycled, ← hInductions, List.flatMap_map] at hReused
        exact hReused
      ranked := fun _ hMem => missed_of_mem_contenders hRows (hRanked hMem)
      supplied := fun chromosome hMem => hRemaining ▸ hSupplied chromosome hMem
      drawn := hDrawn.imp id fun hRun => ⟨_, stages.topped, hRemaining.symm, hRun,
        (congrArg (·.source) hAfter).symm, (congrArg (·.evaluator) hAfter).symm⟩
      closed := fun hNone => hClosed (hRemaining.symm.trans hNone) }

/-- The candidates that a call evaluates: those a start gets from the factory, and the population
of a step with its offspring. -/
def Call.Evaluates (problem : Problem ρ τ) (search : Search ρ τ)
    (candidates : List (Chromosome τ)) : Call τ → Prop
  | .start => ∃ later, freshCandidates problem search.config.population.size
      { search with generation := 0 } = .ok candidates later
  | .step => ∃ offspring later, breed problem search.population
      { search with phase := .evolving, population := [] } = .ok offspring later ∧
        candidates = search.population ++ offspring
  | .reproduce _ _ => False

/-- A call that passes evaluates its candidates for all goals that were open before it. -/
theorem Call.Passes.evaluates {call : Call τ} {search before : Search ρ τ}
    {candidates : List (Chromosome τ)} (h : call.Passes problem search candidates before)
    (hOpen : search.remaining ≠ []) : call.Evaluates problem search candidates := by
  cases call with
  | start =>
      obtain ⟨current, hFirst, -⟩ := h
      rcases hFirst with ⟨hClosed, -⟩ | ⟨-, hFresh⟩
      · exact absurd hClosed hOpen
      · exact ⟨current, hFresh⟩
  | step =>
      obtain ⟨offspring, current, hBreed, hAll, -⟩ := h
      exact ⟨offspring, current, hBreed, hAll⟩
  | reproduce first second => exact h.elim

/-- A renewal looks at the archive and the goals only. -/
theorem Renews.congr {earlier before after : Search ρ τ} {renewal : Renewal τ}
    (h : Renews problem before renewal after) (hArchive : before.archive = earlier.archive)
    (hRemaining : before.remaining = earlier.remaining) : Renews problem earlier renewal after :=
  { h with
    known := hRemaining ▸ h.known
    goals := hRemaining ▸ h.goals
    answers := hArchive ▸ h.answers
    ranked := hRemaining ▸ h.ranked }

/-- What a start or a step does to the population. -/
structure Repopulates (problem : Problem ρ τ) (call : Call τ) (before after : Search ρ τ) :
    Prop where
  config : after.config = before.config
  complete : Complete after
  renewal : before.remaining ≠ [] →
    ∃ renewal, call.Evaluates problem before renewal.evaluated ∧ Renews problem before renewal after

/-- The population is that of the pass which the call makes. -/
theorem repopulates_of_pass {call : Call τ} {candidates population : List (Chromosome τ)}
    {search before later : Search ρ τ} (generation : Nat) (hGoals : search.remaining.Nodup)
    (hPasses : call.Passes problem search candidates before)
    (h : pass problem candidates before = .ok population later) :
    Repopulates problem call search { later with population, generation } := by
  obtain ⟨hSame, hArchive, hRemaining⟩ := hPasses.aside
  by_cases hOpen : search.remaining = []
  · have hClosed := hRemaining.trans hOpen
    obtain ⟨rfl, rfl⟩ := ensures_pass_closed hClosed rfl h
    exact ⟨hSame, ⟨List.length_take_le _ _, fun hLater => absurd hClosed hLater⟩,
      fun hLater => absurd hOpen hLater⟩
  · obtain ⟨hConfig, hComplete, renewal, rfl, hRenews⟩ :=
      renews_of_pass h (hRemaining ▸ hOpen) (hRemaining ▸ hGoals)
    have hAfter : Renews problem search renewal { later with population, generation } :=
      { hRenews.congr hArchive hRemaining with }
    exact ⟨hConfig.trans hSame, { hComplete with }, fun _ =>
      ⟨renewal, hPasses.evaluates hOpen, hAfter⟩⟩

/-- The start repopulates with the first candidates it drew. -/
theorem repopulates_of_start {search next : Search ρ τ} (hGoals : search.remaining.Nodup)
    (h : start problem search = .ok () next) : Repopulates problem .start search next := by
  obtain ⟨candidates, before, population, later, hPasses, hPass, rfl⟩ := ensures_start_passes rfl h
  exact repopulates_of_pass later.generation hGoals hPasses hPass

/-- A step repopulates with parents and offspring, or only counts a generation where no goal is
open. -/
theorem repopulates_of_step {search next : Search ρ τ} (hGoals : search.remaining.Nodup)
    (h : step problem search = .ok () next) : Repopulates problem .step search next := by
  obtain ⟨candidates, before, population, later, hPasses, hPass, rfl⟩ := ensures_step_passes rfl h
  exact repopulates_of_pass _ hGoals hPasses hPass

theorem config_of_reproduce {first second : Chromosome τ} {before after : Search ρ τ}
    (h : (Call.reproduce first second).perform problem before = .ok () after) :
    after.config = before.config := by
  have hInsulated : Insulated (fun _ => True)
      (fun search : Search ρ τ => search.config = before.config) :=
    ⟨fun _ => trivial, fun _ _ hConfig _ => hConfig⟩
  obtain ⟨children, current, hReproduce, h⟩ := exists_of_run_bind h
  cases h
  exact (hInsulated.keeps_reproduce first second rfl hReproduce).2

/-- No call changes the configuration. -/
theorem Reachable.config {initial search : Search ρ τ}
    (hInitial : Onward problem.executor initial initial) (h : Reachable problem initial search) :
    search.config = initial.config := by
  induction h with
  | initial => rfl
  | @next search next call prior last ih =>
      have hGoals := (prior.onward hInitial).nodup
      refine Eq.trans ?_ ih
      cases call with
      | start => exact (repopulates_of_start hGoals last).config
      | step => exact (repopulates_of_step hGoals last).config
      | reproduce first second => exact config_of_reproduce last

/-- A pass of a search begins with the configuration and the target that the search was made with,
and each open goal is open once. -/
theorem Call.Passes.setting {config : Config} {source : ρ} {goals : List Goal}
    {initial search before : Search ρ τ} {call : Call τ} {candidates : List (Chromosome τ)}
    (h : call.Passes problem search candidates before)
    (hNew : Search.new config source goals = .ok initial)
    (hSearch : Reachable problem initial search) :
    before.config = config ∧ before.archive.target = config.multicoverTarget ∧
      before.remaining.Nodup := by
  obtain rfl := eq_made_of_new hNew
  have hInitial : Onward problem.executor _ _ := onward_made problem.executor config source goals
  have hOnward := hSearch.onward hInitial
  obtain ⟨hConfig, hArchive, hRemaining⟩ := h.aside
  refine ⟨hConfig.trans (hSearch.config hInitial), ?_, hRemaining ▸ hOnward.nodup⟩
  rw [hArchive, hOnward.grows.target, target_made]

/-- A population is complete while goals are open, and never too large. With goals open before the
call, it is made of two kinds of survivors and of fresh candidates, in this order. First come
candidates that met a goal but were not accepted for it: unchanged if they were withheld, mutated
once if they were rejected. Then come candidates that met none of the goals that were open when the
call began. No two survivors have one fingerprint. Last come fresh candidates from the factory, if
any goal is open still. -/
theorem call_renews_population (config : Config) (source : ρ) (goals : List Goal)
    {initial search next : Search ρ τ} {call : Call τ}
    (hNew : Search.new config source goals = .ok initial)
    (hSearch : Reachable problem initial search) (hCall : call = .start ∨ call = .step)
    (hRun : call.perform problem search = .ok () next) :
    next.population.length ≤ config.population.size ∧
      (next.remaining ≠ [] → next.population.length = config.population.size) ∧
      (search.remaining ≠ [] → ∃ renewal : Renewal τ,
        call.Evaluates problem search renewal.evaluated ∧
          Renews problem search renewal next) := by
  obtain rfl := eq_made_of_new hNew
  have hInitial : Onward problem.executor _ _ := onward_made problem.executor config source goals
  have hGoals := (hSearch.onward hInitial).nodup
  have hNext : Repopulates problem call search next := by
    rcases hCall with rfl | rfl
    · exact repopulates_of_start hGoals hRun
    · exact repopulates_of_step hGoals hRun
  have hConfig : next.config = config := hNext.config.trans (hSearch.config hInitial)
  exact ⟨hConfig ▸ hNext.complete.le, hConfig ▸ hNext.complete.eq, hNext.renewal⟩

/-- A start that covers nothing completes its population with a fresh candidate, and the step after
it covers the goal and leaves the population one short. -/
theorem call_renews_population_late :
    Search.new lateConfig (.start [1, 1, 0, 0, 0] 0) [trialGoal] = .ok late ∧
    late.remaining ≠ [] ∧
    ∃ evaluator after,
      Call.start.perform trialProblem late = .ok () (lateStarted evaluator) ∧
      Call.step.perform trialProblem (lateStarted evaluator) = .ok () after ∧
      (lateStarted evaluator).remaining ≠ [] ∧
      (lateStarted evaluator).population.length = 2 ∧
      (lateStarted evaluator).population = [trialCall "h", trialCall "f"] ∧
      after.population.length ≤ 2 ∧ after.population = [trialCall "h"] ∧
      (∃ renewal : Renewal InputVector,
        Call.start.Evaluates trialProblem late renewal.evaluated ∧
          Renews trialProblem late renewal (lateStarted evaluator)) ∧
      ∃ renewal : Renewal InputVector,
        Call.step.Evaluates trialProblem (lateStarted evaluator) renewal.evaluated ∧
          Renews trialProblem (lateStarted evaluator) renewal after := by
  obtain ⟨evaluator, hAttested, hStart⟩ := late_start
  obtain ⟨after, hStep, -, -, hPopulation, -⟩ := late_step hAttested
  have hNew : Search.new lateConfig (.start [1, 1, 0, 0, 0] 0) [trialGoal] = .ok late := rfl
  have hOpen : late.remaining ≠ [] := List.cons_ne_nil _ _
  have hStill : (lateStarted evaluator).remaining ≠ [] := List.cons_ne_nil _ _
  have hStarted : Reachable trialProblem late (lateStarted evaluator) :=
    .next .start .initial hStart
  obtain ⟨-, hSize, hRenewal⟩ := call_renews_population lateConfig (.start [1, 1, 0, 0, 0] 0)
    [trialGoal] hNew .initial (.inl rfl) hStart
  obtain ⟨hLater, -, hRenewed⟩ := call_renews_population lateConfig (.start [1, 1, 0, 0, 0] 0)
    [trialGoal] hNew hStarted (.inr rfl) hStep
  exact ⟨hNew, hOpen, evaluator, after, hStart, hStep, hStill, hSize hStill, rfl, hLater,
    hPopulation, hRenewal hOpen, hRenewed hStill⟩

end Search

end WitnessSearch
