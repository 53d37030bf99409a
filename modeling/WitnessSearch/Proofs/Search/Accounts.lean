import WitnessSearch.Proofs.Search.Course

/-! The accounts of a run. Its history has one entry for every report, the entries add up to what
the archive holds in the end, and the evaluator has run as often as its memo has entries. -/

namespace WitnessSearch.Search

variable {ρ τ : Type} [HasCode τ] [RandomSource ρ] [Variation ρ τ]

/-- There is a report for the start and one for every generation. -/
theorem Course.length_reports {problem : Problem ρ τ} {signals : Nat → Signal}
    {initial search : Search ρ τ} {n : Nat} {reports : List SearchProgress}
    (h : Course problem signals initial n reports search) : reports.length = n + 1 := by
  induction h with
  | started _ => rfl
  | stepped _ _ _ ih => rw [List.length_append, ih, List.length_singleton]

omit [HasCode τ] [RandomSource ρ] [Variation ρ τ] in
/-- The last entry for the archive is its size. -/
theorem Balanced.getLast_archiveSize {search : Search ρ τ} {entries : Nat}
    (h : Balanced search (entries + 1)) :
    search.history.archiveSize.getLast? = some search.archive.size := by
  rw [List.getLast?_eq_getElem?, h.archiveSize, Nat.add_sub_cancel,
    h.sums entries (Nat.lt_succ_self entries), List.take_of_length_le (Nat.le_of_eq h.accepted),
    h.total]

/-- A run that has a result keeps its accounts in order. There is one entry of the history for each
report, the open goals do not get more, and the archive holds what was accepted up to each entry. No
pair is run twice, so the runs, the missed lookups and the entries of the memo are equally many. For
the same reason nothing is lost by an executor that has one answer for each pair. -/
theorem run_keeps_accounts (config : Config) (source : ρ) (goals : List Goal)
    {problem : Problem ρ τ} {signals : Nat → Signal} {initial final : Search ρ τ}
    {result : SearchResult τ} {reports : List SearchProgress}
    (hNew : Search.new config source goals = .ok initial)
    (hRun : run problem signals initial = .ok (result, reports) final) :
    (result.history.remainingGoals.length = result.stats.generations + 1 ∧
      result.history.archiveSize.length = result.stats.generations + 1 ∧
      result.history.cacheEntries.length = result.stats.generations + 1 ∧
      result.history.accepted.length = result.stats.generations + 1 ∧
      reports.length = result.stats.generations + 1) ∧
    result.history.remainingGoals.Pairwise (· ≥ ·) ∧
    (∀ i ≤ result.stats.generations,
      result.history.archiveSize[i]? = some (result.history.accepted.take (i + 1)).sum) ∧
    result.history.cacheEntries.Pairwise (· ≤ ·) ∧
    final.evaluator.calls.Nodup ∧
    (result.stats.executions = final.evaluator.calls.length ∧
      result.stats.cache.misses = final.evaluator.calls.length ∧
      result.stats.cache.entries = final.evaluator.calls.length) ∧
    result.history.archiveSize.getLast? = some result.stats.archiveSize := by
  obtain ⟨n, search, reason, hCourse, -, rfl, hResult⟩ := exists_course_of_run hNew hRun
  have hStanding := hCourse.standing hNew
  have hBalanced := hStanding.balanced
  have hHistory : result.history = search.history := by
    rw [hResult]
    rfl
  have hGenerations : result.stats.generations = n := by
    rw [hResult]
    exact hStanding.generation
  obtain ⟨hCalls, hExecutions, hMisses, hEntries⟩ :
      search.evaluator.calls.Nodup ∧ search.evaluator.executions = search.evaluator.calls.length ∧
        search.evaluator.memo.misses = search.evaluator.calls.length ∧
        search.evaluator.memo.size = search.evaluator.calls.length := by
    apply Evaluator.Thrifty.of_empty
    rw [eq_made_of_new hNew] at hStanding
    exact hStanding.runs
  rw [hHistory, hGenerations, hResult]
  refine ⟨⟨hBalanced.remainingGoals, hBalanced.archiveSize, hBalanced.cacheEntries,
    hBalanced.accepted, hCourse.length_reports⟩, ?_, ?_, ?_, hCalls,
    ⟨hExecutions, hMisses, hEntries⟩, hBalanced.getLast_archiveSize⟩
  · exact (List.pairwise_append.mp hBalanced.falls).1
  · exact fun i hi => hBalanced.sums i (Nat.lt_succ_of_le hi)
  · exact (List.pairwise_append.mp hBalanced.rises).1

/-- The accounts of a run that makes a step and accepts its only witness in it. -/
theorem run_keeps_accounts_late :
    Search.new lateConfig (.start [1, 1, 0, 0, 0] 0) [trialGoal] = .ok late ∧
    ∃ result reports final,
      run trialProblem (fun _ => ⟨⟨0⟩, none⟩) late = .ok (result, reports) final ∧
      result.stats.generations = 1 ∧ result.history.accepted = [0, 1] ∧
      reports.length = 2 ∧
      result.history.archiveSize[0]? = some 0 ∧ result.history.archiveSize[1]? = some 1 ∧
      result.stats.archiveSize = 1 ∧
      final.evaluator.calls.Nodup := by
  have hNew : Search.new lateConfig (.start [1, 1, 0, 0, 0] 0) [trialGoal] = .ok late := rfl
  obtain ⟨result, reports, final, hRun, hAccepted, hGenerations, -⟩ := exists_late_run
  obtain ⟨⟨-, hLength, -, -, hReports⟩, -, hSums, -, hCalls, -, hLast⟩ :=
    run_keeps_accounts lateConfig (.start [1, 1, 0, 0, 0] 0) [trialGoal] hNew hRun
  rw [hGenerations] at hReports hSums hLength
  have hSecond := hSums 1 (Nat.le_refl 1)
  rw [hAccepted] at hSums hSecond
  have hSize : result.stats.archiveSize = 1 := by
    rw [List.getLast?_eq_getElem?, hLength] at hLast
    exact Option.some.inj (hLast.symm.trans hSecond)
  exact ⟨hNew, result, reports, final, hRun, hGenerations, hAccepted, hReports,
    hSums 0 (Nat.zero_le 1), hSecond, hSize, hCalls⟩

end WitnessSearch.Search
