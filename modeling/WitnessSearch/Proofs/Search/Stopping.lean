import WitnessSearch.Proofs.Search.Course

/-! When a run stops and what it says about it. The reasons are looked at in a fixed order, so a
later reason also says that the earlier ones did not apply. -/

namespace WitnessSearch.Search

variable {ρ τ : Type} [HasCode τ]

section Standing

variable {config : Config} {source : ρ} {goals : List Goal} {executor : Executor τ}
  {search : Search ρ τ} {n : Nat}

/-- All goals are covered exactly if none remains. -/
theorem Standing.all_covered_iff (h : Standing executor (made config source goals) n search) :
    search.archive.coverage.all (·.covered) = true ↔ search.remaining = [] := by
  rw [h.onward.current]
  exact Archive.all_covered_iff

theorem Standing.target (h : Standing executor (made config source goals) n search) :
    search.archive.target = config.multicoverTarget :=
  h.onward.grows.target.trans (target_made config source goals)

theorem Standing.mem_goals (h : Standing executor (made config source goals) n search)
    (goal : Goal) : goal ∈ search.archive.goals ↔ goal ∈ goals := by
  rw [h.onward.grows.goals, mem_goals_made]

/-- While a goal remains there is one with fewer witnesses than the target. -/
theorem Standing.exists_uncovered (h : Standing executor (made config source goals) n search)
    (hOpen : search.remaining ≠ []) :
    ∃ goal ∈ goals, search.archive.witnessCount goal < config.multicoverTarget := by
  obtain ⟨goal, hGoal⟩ := List.exists_mem_of_ne_nil _ hOpen
  rw [h.onward.current, Archive.remainingGoals_eq_filter h.onward.ascending, List.mem_filter,
    h.mem_goals] at hGoal
  refine ⟨goal, hGoal.1, ?_⟩
  simpa [Archive.isCovered, h.target] using hGoal.2

/-- No goal is open exactly when each has its full number of witnesses, and then so has the least
covered one. -/
theorem Standing.remaining_eq_nil_iff (h : Standing executor (made config source goals) n search)
    (hGoals : goals ≠ []) :
    search.remaining = [] ↔
      (∀ goal ∈ goals, search.archive.witnessCount goal = config.multicoverTarget) ∧
        config.multicoverTarget ≤ search.archive.minCoverage := by
  constructor
  · intro hNone
    rw [h.onward.current] at hNone
    have hRegistered : search.archive.goals ≠ [] := by
      obtain ⟨goal, hGoal⟩ := List.exists_mem_of_ne_nil _ hGoals
      exact List.ne_nil_of_mem ((h.mem_goals goal).mpr hGoal)
    rw [← h.target]
    refine ⟨fun goal hGoal => ?_, Archive.target_le_minCoverage hNone hRegistered⟩
    exact Archive.witnessCount_of_remainingGoals_eq_nil h.onward.ascending h.bounded hNone
      ((h.mem_goals goal).mpr hGoal)
  · rintro ⟨hFull, -⟩
    by_contra hOpen
    obtain ⟨goal, hGoal, hShort⟩ := h.exists_uncovered hOpen
    exact absurd (hFull goal hGoal) (Nat.ne_of_lt hShort)

/-- A search on its course is cancelled only through the signal that it heeds. -/
theorem Standing.cancel_of_heed (h : Standing executor (made config source goals) n search)
    {signal : Signal} (hCancelled : (search.heed signal).cancelled = true) :
    signal.cancel = some true := by
  change signal.cancel.getD search.cancelled = true at hCancelled
  rw [h.cancelled] at hCancelled
  cases hCancel : signal.cancel with
  | none => simp [hCancel] at hCancelled
  | some asked => simpa [hCancel] using hCancelled

/-- What a reason to stop says of the search. -/
theorem Standing.reason_holds (h : Standing executor (made config source goals) n search)
    (hBound : n ≤ config.population.maxGenerations) {signal : Signal} {reason : StopReason} :
    (search.heed signal).stopReason signal.elapsed = some reason → match reason with
    | .allGoalsCovered => search.archive.coverage.all (·.covered) = true
    | .maxGenerations =>
      (∃ goal ∈ goals, search.archive.witnessCount goal < config.multicoverTarget) ∧
        n = config.population.maxGenerations
    | .deadline =>
      (∃ goal ∈ goals, search.archive.witnessCount goal < config.multicoverTarget) ∧
        n < config.population.maxGenerations ∧
        ∃ budget, config.timeBudget = some budget ∧
          budget.nanoseconds ≤ signal.elapsed.nanoseconds
    | .cancelled => signal.cancel = some true := by
  intro stops
  have hReason := stopReason_eq_some stops
  have hConfig : (search.heed signal).config = config := h.config
  have hGeneration : (search.heed signal).generation = n := h.generation
  rw [hConfig, hGeneration] at hReason
  cases reason with
  | allGoalsCovered => exact h.all_covered_iff.mpr hReason.2
  | maxGenerations =>
      obtain ⟨-, hOpen, hLast⟩ := hReason
      exact ⟨h.exists_uncovered hOpen, Nat.le_antisymm hBound hLast⟩
  | deadline =>
      obtain ⟨-, hOpen, hLeft, hBudget⟩ := hReason
      exact ⟨h.exists_uncovered hOpen, hLeft, hBudget⟩
  | cancelled => exact h.cancel_of_heed hReason

/-- Without a time budget a search that is not asked to stop does so when everything is covered, or
else when the generations are used up. -/
theorem Standing.reason_eq (h : Standing executor (made config source goals) n search)
    (hBudget : config.timeBudget = none) {signal : Signal} {reason : StopReason}
    (hCancel : signal.cancel ≠ some true)
    (stops : (search.heed signal).stopReason signal.elapsed = some reason) :
    reason = if search.archive.coverage.all (·.covered) then .allGoalsCovered
      else .maxGenerations := by
  have hReason := stopReason_eq_some stops
  have hConfig : (search.heed signal).config = config := h.config
  rw [hConfig] at hReason
  cases reason with
  | allGoalsCovered => rw [if_pos (h.all_covered_iff.mpr hReason.2)]
  | maxGenerations => rw [if_neg fun hAll => hReason.2.1 (h.all_covered_iff.mp hAll)]
  | deadline =>
      obtain ⟨-, -, -, budget, hSome, -⟩ := hReason
      rw [hBudget] at hSome
      cases hSome
  | cancelled => exact absurd (h.cancel_of_heed hReason) hCancel

end Standing

variable [RandomSource ρ] [Variation ρ τ]

/-- A run makes at most as many steps as there are generations, whether or not it ends in a fault.
When it has a result, its course came to a search that gave the reason of the result, and the reason
is true: everything is covered, or something is not and the generations or the time are used up, or
the last signal asked the run to stop. Left to itself, a run says that everything is covered if and
only if it is. -/
theorem run_stops_for_reason (config : Config) (source : ρ) (goals : List Goal)
    (problem : Problem ρ τ) (signals : Nat → Signal) {initial : Search ρ τ}
    (hNew : Search.new config source goals = .ok initial) :
    match run problem signals initial with
    | .error fault final =>
      start problem initial = .error fault final ∨
        ∃ n < config.population.maxGenerations, ∃ reports search,
          Course problem signals initial n reports search ∧
          step problem (search.heed (signals n)) = .error fault final
    | .ok (result, reports) final =>
      result.stats.generations ≤ config.population.maxGenerations ∧
      (∃ search, Course problem signals initial result.stats.generations reports search ∧
        (search.heed (signals result.stats.generations)).stopReason
          (signals result.stats.generations).elapsed = some result.stats.stopReason ∧
        final = { search.heed (signals result.stats.generations) with phase := .terminated }) ∧
      (result.isComplete = true ↔
        (∀ goal ∈ goals, final.archive.witnessCount goal = config.multicoverTarget) ∧
          config.multicoverTarget ≤ result.stats.minCoverage) ∧
      (match result.stats.stopReason with
        | .allGoalsCovered => result.isComplete = true
        | .maxGenerations =>
          (∃ goal ∈ goals, final.archive.witnessCount goal < config.multicoverTarget) ∧
            result.stats.generations = config.population.maxGenerations
        | .deadline =>
          (∃ goal ∈ goals, final.archive.witnessCount goal < config.multicoverTarget) ∧
            result.stats.generations < config.population.maxGenerations ∧
            ∃ budget, config.timeBudget = some budget ∧
              budget.nanoseconds ≤ (signals result.stats.generations).elapsed.nanoseconds
        | .cancelled => (signals result.stats.generations).cancel = some true) ∧
      ((∀ i, (signals i).cancel ≠ some true) → config.timeBudget = none →
        result.stats.stopReason =
          if result.isComplete then .allGoalsCovered else .maxGenerations) := by
  obtain ⟨outcome, reports, hEnds, hRun⟩ := exists_ends hNew problem signals
  rw [hRun]
  obtain ⟨-, hGoals⟩ := valid_of_new hNew
  obtain rfl := eq_made_of_new hNew
  cases hEnds with
  | unstarted first => exact .inl first
  | broken course goesOn last =>
      exact .inr ⟨_, course.lt_maxGenerations hNew goesOn, _, _, course, last⟩
  | stopped course stops =>
      have hStanding := course.standing hNew
      obtain rfl := hStanding.generation
      have hBound := course.le_maxGenerations hNew
      exact ⟨hBound, ⟨_, course, stops, rfl⟩,
        hStanding.all_covered_iff.trans (hStanding.remaining_eq_nil_iff hGoals),
        hStanding.reason_holds hBound stops,
        fun hNever hBudget => hStanding.reason_eq hBudget (hNever _) stops⟩

/-- This run stops after one step with its only goal covered, and the search it came to says so. -/
theorem run_stops_for_reason_late :
    Search.new lateConfig (.start [1, 1, 0, 0, 0] 0) [trialGoal] = .ok late ∧
    ∃ result reports final,
      run trialProblem (fun _ => ⟨⟨0⟩, none⟩) late = .ok (result, reports) final ∧
      result.stats.generations = 1 ∧ result.stats.stopReason = .allGoalsCovered ∧
      result.isComplete = true ∧ final.archive.witnessCount trialGoal = 1 ∧
      ∃ search, Course trialProblem (fun _ => ⟨⟨0⟩, none⟩) late 1 reports search ∧
        (search.heed ⟨⟨0⟩, none⟩).stopReason ⟨0⟩ = some .allGoalsCovered := by
  have hNew : Search.new lateConfig (.start [1, 1, 0, 0, 0] 0) [trialGoal] = .ok late := rfl
  obtain ⟨result, reports, final, hRun, -, hGenerations, hReason, -⟩ := exists_late_run
  have hStops := run_stops_for_reason lateConfig (.start [1, 1, 0, 0, 0] 0) [trialGoal]
    trialProblem (fun _ => ⟨⟨0⟩, none⟩) hNew
  rw [hRun] at hStops
  obtain ⟨-, ⟨search, hCourse, hGiven, -⟩, hComplete, hTrue, -⟩ := hStops
  rw [hReason] at hGiven hTrue
  rw [hGenerations] at hCourse
  exact ⟨hNew, result, reports, final, hRun, hGenerations, hReason, hTrue,
    (hComplete.mp hTrue).1 trialGoal (List.mem_singleton_self _), search, hCourse, hGiven⟩

end WitnessSearch.Search
