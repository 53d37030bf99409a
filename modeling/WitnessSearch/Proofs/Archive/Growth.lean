import WitnessSearch.Proofs.Archive.Entries
import WitnessSearch.Proofs.Evaluation

/-! How an archive changes while a search runs on a fixed set of goals. Witnesses are only ever
added, at the end of their goal's list, and every one of them goes back to an execution that met the
goal. -/

namespace WitnessSearch

variable {τ : Type}

namespace Archive

/-- The later archive has the same goals and all the witnesses of the earlier one, in their
places. -/
structure Grows (before after : Archive τ) : Prop where
  target : after.target = before.target
  goals : after.goals = before.goals
  witnesses : ∀ goal, before.witnesses goal <+: after.witnesses goal

namespace Grows

variable {a b c : Archive τ}

theorem refl (a : Archive τ) : Grows a a :=
  ⟨rfl, rfl, fun _ => List.prefix_rfl⟩

/-- Growth is a matter of the first and the last archive, so it may be put together from parts. -/
theorem trans (h : Grows a b) (hNext : Grows b c) : Grows a c where
  target := hNext.target.trans h.target
  goals := hNext.goals.trans h.goals
  witnesses goal := (h.witnesses goal).trans (hNext.witnesses goal)

/-- A covered goal stays covered. -/
theorem isCovered (h : Grows a b) {goal : Goal} (hCovered : a.isCovered goal = true) :
    b.isCovered goal = true := by
  have hMore : a.witnessCount goal ≤ b.witnessCount goal := (h.witnesses goal).length_le
  simp only [Archive.isCovered, decide_eq_true_eq, h.target] at hCovered ⊢
  omega

/-- Of goals that were not covered before, those are left that are not covered now. -/
theorem filter_open (h : Grows a b) (goals : List Goal) :
    ((goals.filter fun goal => !a.isCovered goal).filter fun goal => !b.isCovered goal) =
      goals.filter fun goal => !b.isCovered goal := by
  rw [List.filter_filter]
  apply List.filter_congr
  intro goal _
  by_cases hCovered : a.isCovered goal = true
  · simp [h.isCovered hCovered]
  · simp [Bool.not_eq_true _ ▸ hCovered]

/-- Goals that shrink to the open ones go on to do so. -/
theorem filter_eq_remainingGoals (h : Grows a b) (hAscending : Goal.Ascending a.goals)
    {goals : List Goal} (hGoals : (goals.filter fun goal => !a.isCovered goal) = a.remainingGoals) :
    (goals.filter fun goal => !b.isCovered goal) = b.remainingGoals := by
  have hLater : Goal.Ascending b.goals := by rwa [h.goals]
  calc
    _ = a.remainingGoals.filter fun goal => !b.isCovered goal := by
      rw [← hGoals, h.filter_open]
    _ = a.goals.filter fun goal => !b.isCovered goal := by
      rw [remainingGoals_eq_filter hAscending, h.filter_open]
    _ = b.remainingGoals := by rw [remainingGoals_eq_filter hLater, h.goals]

end Grows

/-- The open goals are up to date already when none of them was covered since they were listed. -/
theorem filter_remainingGoals {archive : Archive τ} (h : Goal.Ascending archive.goals) :
    (archive.remainingGoals.filter fun goal => !archive.isCovered goal) =
      archive.remainingGoals := by
  rw [remainingGoals_eq_filter h, (Grows.refl archive).filter_open]

end Archive

variable [HasCode τ]

/-- A witness carries its own fingerprint and what was observed when it met the goal. -/
structure Witness.Genuine (executor : Executor τ) (goal : Goal) (witness : Witness τ) : Prop where
  fingerprint : witness.fingerprint = witness.chromosome.fingerprint
  execution : ∃ execution, executor.Attests witness.fingerprint goal execution ∧
    execution.isCovered = true ∧ witness.observation = execution.observation.getD .empty

namespace Archive

/-- Every witness is genuine for the goal it is held for. -/
def Genuine (executor : Executor τ) (archive : Archive τ) : Prop :=
  ∀ goal, ∀ witness ∈ archive.witnesses goal, witness.Genuine executor goal

variable {archive : Archive τ} {goal : Goal} (chromosome : Chromosome τ)
  (observation : Option Observation) (generation : Nat)

/-- An offer for a registered goal only adds to the archive. -/
theorem grows_offer (hAscending : Goal.Ascending archive.goals) (hGoal : goal ∈ archive.goals) :
    archive.Grows (archive.offer goal chromosome observation generation).2 where
  target := offer_target archive goal chromosome observation generation
  goals := by
    rw [offer_goals archive goal chromosome observation generation hAscending,
      Goal.insertSorted_of_mem hAscending hGoal]
  witnesses other := by
    rw [offer_witnesses]
    split
    · exact List.prefix_append _ _
    · exact List.prefix_rfl

/-- Offering what was observed of a candidate that met the goal keeps the archive genuine. -/
theorem Genuine.offer {executor : Executor τ} (h : archive.Genuine executor)
    (hNew : (offered chromosome observation generation).Genuine executor goal) :
    (archive.offer goal chromosome observation generation).2.Genuine executor := by
  intro other witness hMem
  rw [offer_witnesses] at hMem
  split at hMem
  · rename_i hAccepted
    rcases List.mem_append.mp hMem with hHeld | hLast
    · exact h other witness hHeld
    · rw [List.mem_singleton.mp hLast, hAccepted.1]
      exact hNew
  · exact h other witness hMem

end Archive

end WitnessSearch
