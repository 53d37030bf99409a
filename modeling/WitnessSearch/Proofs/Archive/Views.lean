import Mathlib.Algebra.BigOperators.Group.List.Lemmas
import WitnessSearch.Proofs.Archive.Signals

/-! The views of an archive agree. Each of them is computed from the entries on its own, but the
goals are ascending and none has more witnesses than the target, so each is fixed by the goals and
the number of witnesses of each. The size counts the same witnesses by goals, by accepted offers and
by fingerprints. -/

namespace WitnessSearch

variable {τ : Type}

def Admission.isAccepted : Admission → Bool
  | .accepted _ => true
  | .rejected _ => false

theorem Admission.gain_eq_toNat (admission : Admission) :
    admission.gain = admission.isAccepted.toNat := by
  cases admission <;> rfl

namespace Archive

section Views

variable {archive : Archive τ}

/-- An archive is full exactly if no goal is open. -/
theorem isFull_iff : archive.isFull = true ↔ archive.remainingGoals = [] := by
  simp [isFull, remainingGoals, List.filter_eq_nil_iff]

/-- The goals are the open ones and the covered ones. -/
theorem mem_goals_iff (h : Goal.Ascending archive.goals) {goal : Goal} :
    goal ∈ archive.goals ↔ goal ∈ archive.remainingGoals ∨ goal ∈ archive.coveredGoals := by
  rw [mem_remainingGoals_iff h, coveredGoals_eq_filter h, List.mem_filter, ← and_or_left]
  cases archive.isCovered goal <;> simp

/-- No goal is both open and covered. -/
theorem disjoint_remainingGoals_coveredGoals (h : Goal.Ascending archive.goals) :
    archive.remainingGoals.Disjoint archive.coveredGoals := by
  intro goal hOpen hCovered
  rw [mem_remainingGoals_iff h] at hOpen
  rw [coveredGoals_eq_filter h, List.mem_filter, hOpen.2] at hCovered
  exact Bool.false_ne_true hCovered.2

/-- The minimal coverage is the least number of witnesses of a registered goal, and zero if there is
none. -/
theorem minCoverage_eq (h : Goal.Ascending archive.goals) :
    archive.minCoverage = (archive.goals.map archive.witnessCount).min?.getD 0 :=
  congrArg (fun counts => counts.min?.getD 0) (map_entries h fun _ held => held.length)

/-- No registered goal has fewer witnesses than the minimal coverage says. -/
theorem minCoverage_le (h : Goal.Ascending archive.goals) {goal : Goal}
    (hMem : goal ∈ archive.goals) : archive.minCoverage ≤ archive.witnessCount goal := by
  rw [minCoverage_eq h]
  exact List.min?_getD_le_of_mem (List.mem_map_of_mem hMem)

/-- The minimal coverage does not exceed the target, whether or not there are goals. -/
theorem minCoverage_le_target (h : Goal.Ascending archive.goals) (hBounded : archive.Bounded) :
    archive.minCoverage ≤ archive.target := by
  cases hGoals : archive.goals with
  | nil => simp [minCoverage_eq h, hGoals]
  | cons goal _ =>
      have hMem : goal ∈ archive.goals := by simp [hGoals]
      exact (minCoverage_le h hMem).trans (hBounded goal)

/-- The least covered of some goals has the target number exactly when no goal is open. -/
theorem minCoverage_eq_target_iff (h : Goal.Ascending archive.goals) (hBounded : archive.Bounded)
    (hGoals : archive.goals ≠ []) :
    archive.minCoverage = archive.target ↔ archive.isFull = true := by
  rw [isFull_iff]
  constructor
  · intro hLeast
    rw [remainingGoals_eq_filter h, List.filter_eq_nil_iff]
    intro goal hMem
    have hCovered : archive.target ≤ archive.witnessCount goal := hLeast ▸ minCoverage_le h hMem
    rw [isCovered_iff.mpr hCovered]
    exact Bool.false_ne_true
  · intro hNone
    exact Nat.le_antisymm (minCoverage_le_target h hBounded) (target_le_minCoverage hNone hGoals)

/-- The size is the sum of the numbers of witnesses, goal by goal. -/
theorem size_eq_sum_witnessCount (h : Goal.Ascending archive.goals) :
    archive.size = (archive.goals.map archive.witnessCount).sum := by
  rw [size_eq_sum]
  exact congrArg List.sum (map_entries h fun _ held => held.length)

/-- All witnesses are those of the first goal, then those of the second, and so on. -/
theorem allWitnesses_eq_flatMap (h : Goal.Ascending archive.goals) :
    archive.allWitnesses = archive.goals.flatMap archive.witnesses := by
  rw [allWitnesses, List.flatMap_def, List.flatMap_def]
  exact congrArg List.flatten (map_entries h fun _ held => held)

/-- Counted by their fingerprints, the witnesses are all there. -/
theorem sum_appearanceCount (archive : Archive τ) :
    ((archive.allWitnesses.map (·.fingerprint)).dedup.map archive.appearanceCount).sum =
      archive.size := by
  have hCount : ∀ fingerprint, archive.appearanceCount fingerprint =
      (archive.allWitnesses.map (·.fingerprint)).count fingerprint := by
    intro fingerprint
    rw [appearanceCount, List.count, List.countP_map]
    rfl
  rw [funext hCount, List.sum_map_count_dedup_eq_length, List.length_map, size_eq_length]

/-- The report has one line for each registered goal, in ascending order, and each line is computed
from the witnesses of its goal. -/
theorem coverage_eq (h : Goal.Ascending archive.goals) :
    archive.coverage = archive.goals.map fun goal =>
      ⟨goal, archive.witnessCount goal, archive.target, archive.isCovered goal⟩ :=
  map_entries h fun goal held =>
    GoalCoverage.mk goal held.length archive.target (archive.target ≤ held.length)

end Views

section Runs

variable [HasCode τ] {archive : Archive τ}

/-- A goal's entry in the record tells what its entry in the report tells. -/
theorem map_record_goals (archive : Archive τ) :
    (archive.record.goals.map fun entry => (entry.goal, entry.witnesses.length, entry.covered)) =
      archive.coverage.map fun entry => (entry.goal, entry.witnesses, entry.covered) := by
  simp [record, coverage]

theorem bounded_serve (h : archive.Bounded) (request : Request τ) :
    (archive.serve request).Bounded := by
  cases request with
  | register goal =>
      intro other
      simpa [serve, witnessCount] using h other
  | offer goal offer => exact h.offer goal _ _ _

/-- No sequence of requests takes a goal beyond the target. -/
theorem bounded_serveAll (h : archive.Bounded) (requests : List (Request τ)) :
    (archive.serveAll requests).Bounded := by
  induction requests generalizing archive with
  | nil => exact h
  | cons request rest ih => exact ih (bounded_serve h request)

/-- A request adds one witness if it is answered by an acceptance. Registering a goal is not
answered and adds none. -/
theorem size_serve (h : Goal.Ascending archive.goals) (request : Request τ) :
    (archive.serve request).size =
      archive.size + (archive.answer request).toList.countP (·.2.isAccepted) := by
  cases request with
  | register goal => exact size_register h goal
  | offer goal offer =>
      have hSize := size_offer goal offer.chromosome offer.observation offer.generation h
      rw [Admission.gain_eq_toNat] at hSize
      rw [answer, Option.toList_some, List.countP_singleton]
      exact hSize.trans (congrArg _ (Bool.cond_eq_ite _ 1 0))

/-- A sequence of requests adds as many witnesses as it has offers accepted. -/
theorem size_serveAll (h : Goal.Ascending archive.goals) (requests : List (Request τ)) :
    (archive.serveAll requests).size =
      archive.size + (archive.answers requests).countP (·.2.isAccepted) := by
  induction requests generalizing archive with
  | nil => rfl
  | cons request rest ih =>
      have hStep := size_serve h request
      have hRest := ih (ascending_serve h request)
      rw [answers, List.countP_append, ← Nat.add_assoc, ← hStep, ← hRest]
      rfl

end Runs

/-- After any requests the open goals and the covered goals are together the goals and have none in
common, and those reported as covered are the covered ones. The archive is full when no goal is
open, and then, if it has a goal, its least covered one has the target number of witnesses, which
none exceeds. The size is the number of witnesses of all goals, the number of accepted offers and
the number of appearances of all fingerprints. The report and the record list the goals, ascending,
with their numbers of witnesses, and say of each whether it is covered. -/
theorem views_agree [HasCode τ] {target : ℕ} (hTarget : 0 < target) :
    ∃ fresh : Archive τ, Archive.new target = .ok fresh ∧
      ∀ requests : List (Request τ),
        let archive := fresh.serveAll requests
        (∀ goal, goal ∈ archive.goals ↔
          goal ∈ archive.remainingGoals ∨ goal ∈ archive.coveredGoals) ∧
        archive.remainingGoals.Disjoint archive.coveredGoals ∧
        (∀ goal, archive.isCovered goal = true ↔ goal ∈ archive.coveredGoals) ∧
        (archive.isFull = true ↔ archive.remainingGoals = []) ∧
        (archive.goals ≠ [] → (archive.minCoverage = target ↔ archive.isFull = true)) ∧
        archive.minCoverage ≤ target ∧
        archive.size = (archive.goals.map archive.witnessCount).sum ∧
        archive.size = (fresh.answers requests).countP (·.2.isAccepted) ∧
        archive.size = (((archive.goals.flatMap archive.witnesses).map (·.fingerprint)).dedup.map
          archive.appearanceCount).sum ∧
        Goal.Ascending archive.goals ∧
        (archive.coverage = archive.goals.map fun goal =>
          ⟨goal, archive.witnessCount goal, target, archive.isCovered goal⟩) ∧
        archive.record.target = target ∧
        (archive.record.goals.map fun entry =>
            (entry.goal, entry.witnesses.length, entry.covered)) =
          archive.goals.map fun goal =>
            (goal, archive.witnessCount goal, archive.isCovered goal) := by
  refine ⟨⟨target, []⟩, new_eq_ok_iff.mpr ⟨hTarget, rfl⟩, ?_⟩
  intro requests archive
  have hAscending : Goal.Ascending archive.goals :=
    ascending_serveAll (ascending_goals_empty target) requests
  have hEmpty : (⟨target, []⟩ : Archive τ).Bounded := fun _ => Nat.zero_le target
  have hBounded : archive.Bounded := bounded_serveAll hEmpty requests
  have hArchive : archive.target = target := serveAll_target _ _
  have hPositive : 0 < archive.target := by rwa [hArchive]
  have hCoverage := coverage_eq hAscending
  have hRecord := map_record_goals archive
  rw [hCoverage, List.map_map] at hRecord
  have hSize := size_serveAll (ascending_goals_empty target) requests
  refine ⟨fun _ => mem_goals_iff hAscending, disjoint_remainingGoals_coveredGoals hAscending,
    fun _ => (mem_coveredGoals_iff hAscending hPositive).symm, isFull_iff, ?_, ?_,
    size_eq_sum_witnessCount hAscending, ?_, ?_, hAscending, ?_, hArchive, hRecord⟩
  · rw [← hArchive]
    exact minCoverage_eq_target_iff hAscending hBounded
  · rw [← hArchive]
    exact minCoverage_le_target hAscending hBounded
  · exact hSize.trans (Nat.zero_add _)
  · rw [← allWitnesses_eq_flatMap hAscending, sum_appearanceCount]
  · rw [hCoverage, hArchive]

/-- Three of four offers are accepted, all with one fingerprint, and one goal is open. -/
theorem views_agree_with_open_goal :
    let goal := Goal.located "g" "unit" "f" 1
    let other := Goal.located "h" "unit" "f" 1
    let one := observedCall [1.0]
    let requests := [.offer goal one, .offer other one, .offer goal one,
      .offer goal (observedCall [2.0])]
    0 < 2 ∧ ∃ fresh : Archive InputVector, Archive.new 2 = .ok fresh ∧
      let archive := fresh.serveAll requests
      archive.goals ≠ [] ∧ archive.isFull = false ∧ archive.minCoverage ≠ 2 ∧
      archive.size = 3 ∧ (fresh.answers requests).countP (·.2.isAccepted) = 3 := by
  intro goal other one requests
  obtain ⟨fresh, hNew, hViews⟩ := views_agree (τ := InputVector) (by decide : 0 < 2)
  obtain ⟨-, -, -, -, hLeast, -, -, hAccepted, -⟩ := hViews requests
  obtain ⟨-, rfl⟩ := new_eq_ok_iff.mp hNew
  have hGoals : ((⟨2, []⟩ : Archive InputVector).serveAll requests).goals ≠ [] := by
    decide +kernel
  have hOpen : ((⟨2, []⟩ : Archive InputVector).serveAll requests).isFull = false := by
    decide +kernel
  have hSize : ((⟨2, []⟩ : Archive InputVector).serveAll requests).size = 3 := by
    decide +kernel
  refine ⟨by decide, _, hNew, hGoals, hOpen, ?_, hSize, hAccepted.symm.trans hSize⟩
  rw [ne_eq, hLeast hGoals, hOpen]
  exact Bool.false_ne_true

end Archive

end WitnessSearch
