import WitnessSearch.Proofs.Archive.Offers
import WitnessSearch.Proofs.Archive.Tally

/-! What an archive answers and what it changes. A rejection changes nothing, not even for a goal
that was not registered, since such a goal has no witnesses to object to an offer. An accepted offer
changes the list of its own goal only. That a goal is covered now is answered at the one offer that
covers it, and never again. -/

namespace WitnessSearch.Archive

variable {τ : Type} [HasCode τ]

/-- The answer to a request. Registering a goal is not answered. -/
def answer (archive : Archive τ) : Request τ → Option (Goal × Admission)
  | .register _ => none
  | .offer goal offer => some (goal, (archive.submit goal offer).1)

/-- The answers to a sequence of requests, each with the goal of its offer. -/
def answers (archive : Archive τ) : List (Request τ) → List (Goal × Admission)
  | [] => []
  | request :: rest => (archive.answer request).toList ++ (archive.serve request).answers rest

omit [HasCode τ] in
/-- An archive can be made for any positive target, and it is empty then. -/
theorem new_eq_ok_iff {target : ℕ} {archive : Archive τ} :
    new target = .ok archive ↔ 0 < target ∧ archive = ⟨target, []⟩ := by
  rw [new]
  split
  · rename_i hZero
    simp [hZero]
  · rename_i hPositive
    rw [Except.ok.injEq, eq_comm, and_iff_right (Nat.pos_of_ne_zero hPositive)]

omit [HasCode τ] in
/-- Only a goal with witnesses has an objection to an offer. -/
theorem ne_nil_of_objection {target : ℕ} (hTarget : 0 < target) {held : List (Witness τ)}
    {witness : Witness τ} {reason : Rejection} (h : objection target held witness = some reason) :
    held ≠ [] := by
  rintro rfl
  rw [objection, List.any_nil, if_neg Bool.false_ne_true, List.length_nil,
    if_neg hTarget.not_ge] at h
  cases h

/-- What can come of an offer: it is rejected and nothing changes, or it is accepted, and then its
goal has one more witness and all others have what they had. -/
theorem submit_cases {archive : Archive τ} (hTarget : 0 < archive.target) (goal : Goal)
    (offer : Offer τ) :
    (∃ reason, archive.submit goal offer = (.rejected reason, archive)) ∨
      (archive.submit goal offer).1 =
          .accepted (archive.witnessCount goal + 1 = archive.target) ∧
        archive.witnessCount goal < archive.target ∧
        ∀ other, (archive.submit goal offer).2.witnesses other =
          if other = goal then archive.witnesses goal ++ [offer.witness]
          else archive.witnesses other := by
  have hAnswer := submit_answer archive goal offer
  have hWitness : offered offer.chromosome offer.observation offer.generation = offer.witness := rfl
  cases hObjection : objection archive.target (archive.witnesses goal) offer.witness with
  | some reason =>
      left
      have hKnown : archive.isRegistered goal = true :=
        (isRegistered_iff archive goal).mpr
          (mem_goals_of_witnesses_ne_nil (ne_nil_of_objection hTarget hObjection))
      refine ⟨reason, ?_⟩
      rw [submit, offer_eq, hWitness, hObjection, register, if_pos hKnown]
  | none =>
      right
      rw [hObjection] at hAnswer
      refine ⟨hAnswer, ((objection_eq_none_iff _ _ _).mp hObjection).2, fun other => ?_⟩
      rw [submit, offer_witnesses, hWitness]
      by_cases hGoal : other = goal
      · subst hGoal
        rw [if_pos ⟨rfl, hObjection⟩, if_pos rfl]
      · rw [if_neg fun h => hGoal h.1, if_neg hGoal]

theorem isCovered_of_serve {archive : Archive τ} {goal : Goal}
    (h : archive.isCovered goal = true) (request : Request τ) :
    (archive.serve request).isCovered goal = true := by
  rw [isCovered_iff] at h ⊢
  rw [serve_target]
  exact h.trans (witnesses_prefix_serve archive request goal).length_le

/-- A covered goal stays covered, since no witness is ever given up. -/
theorem isCovered_of_serveAll {archive : Archive τ} {goal : Goal}
    (h : archive.isCovered goal = true) (requests : List (Request τ)) :
    (archive.serveAll requests).isCovered goal = true := by
  induction requests generalizing archive with
  | nil => exact h
  | cons request rest ih => exact ih (isCovered_of_serve h request)

/-- An offer is answered by saying that its goal is covered now exactly when the goal was not
covered before and is covered after it. -/
theorem submit_eq_accepted_true_iff {archive : Archive τ} (hTarget : 0 < archive.target)
    (goal : Goal) (offer : Offer τ) :
    (archive.submit goal offer).1 = .accepted true ↔
      archive.isCovered goal = false ∧ (archive.submit goal offer).2.isCovered goal = true := by
  rcases submit_cases hTarget goal offer with ⟨reason, hRejected⟩ | ⟨hAnswer, hRoom, hWitnesses⟩
  · simp [hRejected]
  · have hOpen : archive.isCovered goal = false := by
      rw [← Bool.not_eq_true, isCovered_iff]
      exact hRoom.not_ge
    have hCount : (archive.submit goal offer).2.witnessCount goal =
        archive.witnessCount goal + 1 := by
      rw [witnessCount, hWitnesses, if_pos rfl, List.length_append]
      rfl
    have hAfter : (archive.submit goal offer).2.target = archive.target :=
      offer_target archive goal _ _ _
    rw [hAnswer, isCovered_iff, hCount, hAfter, and_iff_right hOpen, Admission.accepted.injEq,
      decide_eq_true_iff]
    exact ⟨fun h => h.ge, fun h => Nat.le_antisymm hRoom h⟩

/-- One request says that a goal is covered now as often as it makes the goal covered. -/
theorem count_answer {archive : Archive τ} (hTarget : 0 < archive.target) (request : Request τ)
    (goal : Goal) :
    (archive.isCovered goal).toNat +
        (archive.answer request).toList.count (goal, .accepted true) =
      ((archive.serve request).isCovered goal).toNat := by
  cases request with
  | register other => simp [answer, serve]
  | offer other offer =>
      by_cases hGoal : other = goal
      · subst hGoal
        have hSignal := submit_eq_accepted_true_iff hTarget other offer
        have hStays : archive.isCovered other = true →
            (archive.submit other offer).2.isCovered other = true :=
          fun h => isCovered_of_serve h (.offer other offer)
        simp only [answer, serve, Option.toList_some, List.count_singleton, beq_iff_eq,
          Prod.mk.injEq, true_and, hSignal]
        cases hBefore : archive.isCovered other with
        | true => simp [hStays hBefore]
        | false => cases (archive.submit other offer).2.isCovered other <;> rfl
      · have hSame : (archive.submit other offer).2.isCovered goal = archive.isCovered goal := by
          rcases submit_cases hTarget other offer with ⟨reason, hRejected⟩ | ⟨-, -, hWitnesses⟩
          · rw [hRejected]
          · rw [Bool.eq_iff_iff, isCovered_iff, isCovered_iff, witnessCount, hWitnesses,
              if_neg (Ne.symm hGoal), submit, offer_target]
            rfl
        simp [answer, serve, hSame, hGoal]

/-- Over a sequence of requests that a goal is covered now is said as often as the goal becomes
covered, so never for a goal that is covered at the start, and else at most once. -/
theorem count_answers {archive : Archive τ} (hTarget : 0 < archive.target)
    (requests : List (Request τ)) (goal : Goal) :
    (archive.isCovered goal).toNat + (archive.answers requests).count (goal, .accepted true) =
      ((archive.serveAll requests).isCovered goal).toNat := by
  induction requests generalizing archive with
  | nil => rfl
  | cons request rest ih =>
      have hStep := count_answer hTarget request goal
      have hPositive : 0 < (archive.serve request).target := by rwa [serve_target]
      rw [answers, List.count_append, ← Nat.add_assoc, hStep, ih hPositive]
      rfl

/-- An archive without witnesses covers nothing, so afterwards just the covered goals were reported
as covered, and each of them once. -/
theorem count_answers_of_fresh {target : ℕ} (hTarget : 0 < target) (requests : List (Request τ))
    (goal : Goal) :
    ((⟨target, []⟩ : Archive τ).answers requests).count (goal, .accepted true) =
      if goal ∈ ((⟨target, []⟩ : Archive τ).serveAll requests).coveredGoals then 1 else 0 := by
  have hFresh : (⟨target, []⟩ : Archive τ).isCovered goal = false := by
    rw [← Bool.not_eq_true, isCovered_iff]
    exact hTarget.not_ge
  have hPositive : 0 < (⟨target, []⟩ : Archive τ).target := hTarget
  have hCount := count_answers hPositive requests goal
  rw [hFresh, Bool.toNat_false, Nat.zero_add] at hCount
  have hMem : goal ∈ ((⟨target, []⟩ : Archive τ).serveAll requests).coveredGoals ↔
      ((⟨target, []⟩ : Archive τ).serveAll requests).isCovered goal = true :=
    mem_coveredGoals_iff (ascending_serveAll (ascending_goals_empty target) requests)
      (by rwa [serveAll_target])
  rw [hCount, if_congr hMem rfl rfl]
  exact Bool.cond_eq_ite _ 1 0

/-- The covered goals of an archive are among those of every later one. -/
theorem coveredGoals_subset_serveAll {archive : Archive τ} (h : Goal.Ascending archive.goals)
    (hTarget : 0 < archive.target) (requests : List (Request τ)) :
    archive.coveredGoals ⊆ (archive.serveAll requests).coveredGoals := by
  intro goal hMem
  rw [mem_coveredGoals_iff h hTarget] at hMem
  rw [mem_coveredGoals_iff (ascending_serveAll h requests) (by rwa [serveAll_target])]
  exact isCovered_of_serveAll hMem requests

/-- That a goal is covered now is answered at the offer that takes it to the covered goals. It comes
from the open goals, unless one witness is enough and the goal is new. -/
theorem submit_eq_accepted_true_iff_mem {archive : Archive τ} (h : Goal.Ascending archive.goals)
    (hTarget : 0 < archive.target) (goal : Goal) (offer : Offer τ) :
    (archive.submit goal offer).1 = .accepted true ↔
      (goal ∈ archive.remainingGoals ∨ archive.target = 1 ∧ goal ∉ archive.goals) ∧
        goal ∈ (archive.submit goal offer).2.coveredGoals ∧
        goal ∉ (archive.submit goal offer).2.remainingGoals := by
  have hAfter : Goal.Ascending (archive.submit goal offer).2.goals :=
    ascending_serve h (.offer goal offer)
  have hTargetAfter : (archive.submit goal offer).2.target = archive.target :=
    offer_target archive goal _ _ _
  have hMem : goal ∈ (archive.submit goal offer).2.coveredGoals ↔
      (archive.submit goal offer).2.isCovered goal = true :=
    mem_coveredGoals_iff hAfter (by rwa [hTargetAfter])
  rw [hMem, mem_remainingGoals_iff h, mem_remainingGoals_iff hAfter]
  constructor
  · intro hAnswer
    obtain ⟨hOpen, hCovered⟩ := (submit_eq_accepted_true_iff hTarget goal offer).mp hAnswer
    refine ⟨?_, hCovered, by simp [hCovered]⟩
    by_cases hKnown : goal ∈ archive.goals
    · exact .inl ⟨hKnown, hOpen⟩
    · refine .inr ⟨?_, hKnown⟩
      rcases submit_cases hTarget goal offer with ⟨reason, hRejected⟩ | ⟨hAccepted, -, -⟩
      · rw [hRejected] at hAnswer
        cases hAnswer
      · rw [hAccepted, witnessCount, witnesses_of_not_mem hKnown] at hAnswer
        simpa [eq_comm] using hAnswer
  · rintro ⟨hBefore, hCovered, -⟩
    refine (submit_eq_accepted_true_iff hTarget goal offer).mpr ⟨?_, hCovered⟩
    rcases hBefore with ⟨-, hOpen⟩ | ⟨-, hNew⟩
    · exact hOpen
    · rw [← Bool.not_eq_true, ← mem_coveredGoals_iff h hTarget]
      exact fun hMem => hNew (mem_goals_of_mem_coveredGoals hMem)

/-- An offer that is rejected leaves the archive as it was. One that is accepted adds its witness
at the end of the list of its goal, registers no other goal and changes no other list. That a goal
is covered now is answered exactly when an offer takes it from the open goals to the covered ones,
or, where one witness is enough, from the goals that are not registered. Over a sequence of requests
this is answered once for a goal that is covered in the end and never for another one. A covered
goal stays covered, and registering goals covers none. -/
theorem signals_completion_once {target : ℕ} (hTarget : 0 < target) :
    ∃ fresh : Archive τ, Archive.new target = .ok fresh ∧
      ∀ requests : List (Request τ),
        let archive := fresh.serveAll requests
        (∀ goal offer,
          let admission := (archive.submit goal offer).1
          let after := (archive.submit goal offer).2
          (∀ reason, admission = .rejected reason → after = archive) ∧
          (∀ covered, admission = .accepted covered →
            after.target = archive.target ∧
            after.goals = Goal.insertSorted goal archive.goals ∧
            after.witnesses goal = archive.witnesses goal ++ [offer.witness] ∧
            ∀ other, other ≠ goal → after.witnesses other = archive.witnesses other) ∧
          (admission = .accepted true ↔
            (goal ∈ archive.remainingGoals ∨ target = 1 ∧ goal ∉ archive.goals) ∧
              goal ∈ after.coveredGoals ∧ goal ∉ after.remainingGoals)) ∧
        (∀ goal, (fresh.answers requests).count (goal, .accepted true) =
          if goal ∈ archive.coveredGoals then 1 else 0) ∧
        (∀ other, (archive.register other).2.coveredGoals = archive.coveredGoals) ∧
        (∀ later, archive.coveredGoals ⊆ (archive.serveAll later).coveredGoals) := by
  refine ⟨⟨target, []⟩, new_eq_ok_iff.mpr ⟨hTarget, rfl⟩, ?_⟩
  intro requests archive
  have hAscending : Goal.Ascending archive.goals :=
    ascending_serveAll (ascending_goals_empty target) requests
  have hArchive : archive.target = target := serveAll_target _ _
  have hPositive : 0 < archive.target := by rwa [hArchive]
  refine ⟨fun goal offer => ⟨?_, ?_, ?_⟩, count_answers_of_fresh hTarget requests,
    register_coveredGoals hAscending hPositive, coveredGoals_subset_serveAll hAscending hPositive⟩
  · intro reason hAnswer
    rcases submit_cases hPositive goal offer with ⟨_, hRejected⟩ | ⟨hAccepted, -, -⟩
    · rw [hRejected]
    · rw [hAccepted] at hAnswer
      cases hAnswer
  · intro covered hAnswer
    rcases submit_cases hPositive goal offer with ⟨_, hRejected⟩ | ⟨-, -, hWitnesses⟩
    · rw [hRejected] at hAnswer
      cases hAnswer
    · exact ⟨offer_target archive goal _ _ _, submit_goals hAscending goal offer,
        by rw [hWitnesses, if_pos rfl], fun other hOther => by rw [hWitnesses, if_neg hOther]⟩
  · rw [submit_eq_accepted_true_iff_mem hAscending hPositive, hArchive]

/-- Two of these four offers are accepted and cover the goal, which is said once. A third
observation is then rejected and leaves nothing. -/
theorem signals_completion_once_in_run :
    let goal := Goal.located "g" "unit" "f" 1
    let one := observedCall [1.0]
    let two := observedCall [2.0]
    let requests := [.offer goal one, .offer goal one, .offer goal two, .offer goal two]
    0 < 2 ∧ ∃ fresh : Archive InputVector, Archive.new 2 = .ok fresh ∧
      goal ∈ (fresh.serveAll requests).coveredGoals ∧
      (fresh.answers requests).count (goal, .accepted true) = 1 ∧
      ((fresh.serveAll requests).submit goal (observedCall [3.0])).1 = .rejected .full ∧
      ((fresh.serveAll requests).submit goal (observedCall [3.0])).2 = fresh.serveAll requests := by
  intro goal one two requests
  obtain ⟨fresh, hNew, hRuns⟩ := signals_completion_once (τ := InputVector) (by decide : 0 < 2)
  obtain ⟨hOffers, hSignals, -, -⟩ := hRuns requests
  obtain ⟨-, rfl⟩ := new_eq_ok_iff.mp hNew
  have hCovered : goal ∈ ((⟨2, []⟩ : Archive InputVector).serveAll requests).coveredGoals := by
    decide +kernel
  have hFull : (((⟨2, []⟩ : Archive InputVector).serveAll requests).submit goal
      (observedCall [3.0])).1 = .rejected .full := by
    decide +kernel
  refine ⟨by decide, _, hNew, hCovered, ?_, hFull, (hOffers goal _).1 _ hFull⟩
  rw [hSignals, if_pos hCovered]

end WitnessSearch.Archive
