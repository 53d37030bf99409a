import Mathlib.Data.List.Perm.Basic
import Mathlib.Data.Option.Basic
import WitnessSearch.Diversity
import WitnessSearch.Proofs.Faults

/-! The order of diversity exists. Observations of one arity have a centroid of that arity and
distances from it, so there is always a candidate to take next, whatever the components are. Nothing
is asked of the numbers: what is not a number is merely never the largest. -/

namespace WitnessSearch

variable {τ : Type}

namespace Observation

variable {arity : Nat}

/-- Observations of one arity can be added, component by component. -/
theorem exists_accumulate {sum observation : Observation} (hSum : sum.arity = arity)
    (hObservation : observation.arity = arity) :
    ∃ next, accumulate sum observation = .ok next ∧ next.arity = arity := by
  rw [accumulate, if_pos (hSum.trans hObservation.symm)]
  refine ⟨_, rfl, ?_⟩
  change (List.zipWith _ _ _).length = arity
  rw [List.length_zipWith, ← arity.min_self]
  exact congrArg₂ min hSum hObservation

/-- Any number of observations of one arity can be added up. -/
theorem exists_sum {sum : Observation} {rest : List Observation} (hSum : sum.arity = arity)
    (hRest : ∀ observation ∈ rest, observation.arity = arity) :
    ∃ total, rest.foldlM accumulate sum = .ok total ∧ total.arity = arity := by
  induction rest generalizing sum with
  | nil => exact ⟨sum, rfl, hSum⟩
  | cons first rest ih =>
      obtain ⟨hFirst, hLater⟩ := List.forall_mem_cons.mp hRest
      obtain ⟨next, hNext, hArity⟩ := exists_accumulate hSum hFirst
      obtain ⟨total, hTotal, hLast⟩ := ih hArity hLater
      exact ⟨total, by rw [List.foldlM_cons, hNext, ok_bind, hTotal], hLast⟩

/-- Observations of one arity have a centroid, and it has their arity. -/
theorem exists_centroid {first : Observation} {rest : List Observation}
    (h : ∀ observation ∈ first :: rest, observation.arity = arity) :
    ∃ centre, centroid (first :: rest) = .ok (some centre) ∧ centre.arity = arity := by
  obtain ⟨hFirst, hRest⟩ := List.forall_mem_cons.mp h
  obtain ⟨total, hTotal, hArity⟩ := exists_sum hFirst hRest
  refine ⟨⟨total.values.map (· / Float.ofNat (rest.length + 1))⟩, ?_, ?_⟩
  · simp only [centroid, hTotal, ok_bind]
    rfl
  · exact (List.length_map _).trans hArity

/-- Two observations of one arity have a distance. -/
theorem exists_distance {a b : Observation} (h : a.arity = b.arity) :
    ∃ length, a.distance b = .ok length := by
  rw [distance, if_pos h]
  exact ⟨_, rfl⟩

end Observation

namespace Diversity

/-- The position of the largest number is one of the positions looked at. -/
theorem firstLargest_lt {position : Nat} {best : Nat × Float} {numbers : List Float}
    (h : best.1 < position + numbers.length) :
    firstLargest position best numbers < position + numbers.length := by
  induction numbers generalizing position best with
  | nil => exact h
  | cons number rest ih =>
      rw [List.length_cons, ← Nat.add_assoc, Nat.add_right_comm]
      apply ih
      rw [List.length_cons] at h
      split
      · change position < position + 1 + rest.length
        omega
      · omega

variable {arity : Nat}

/-- There is always a candidate to take next. -/
theorem exists_nextPosition {first : Entry} {rest : List Entry}
    (h : ∀ entry ∈ first :: rest, entry.observation.arity = arity) :
    ∃ position, nextPosition first rest = .ok position ∧ position < (first :: rest).length := by
  have hLength : ∀ numbers : List Float, numbers.length = rest.length →
      firstLargest 1 (0, first.diversity) numbers < (first :: rest).length := by
    intro numbers hNumbers
    rw [List.length_cons, Nat.add_comm, ← hNumbers]
    exact firstLargest_lt (Nat.lt_add_right _ Nat.zero_lt_one)
  simp only [nextPosition]
  split
  · exact ⟨_, rfl, hLength _ (List.length_map _)⟩
  · have hPool : ∀ observation ∈ (first :: rest).map (·.observation),
        observation.arity = arity := by
      rw [List.forall_mem_map]
      exact h
    obtain ⟨centre, hCentre, hArity⟩ := Observation.exists_centroid hPool
    have hDistances : ∀ entry ∈ first :: rest,
        ∃ length, entry.observation.distance centre = .ok length ∧ True := by
      intro entry hMem
      obtain ⟨length, hDistance⟩ := Observation.exists_distance ((h entry hMem).trans hArity.symm)
      exact ⟨length, hDistance, trivial⟩
    obtain ⟨distances, hRun, hRelated⟩ := exists_mapM_eq_ok hDistances
    refine ⟨firstLargest 0 (0, -1.0 / 0.0) distances, ?_, ?_⟩
    · have hHere : Observation.centroid ((first :: rest).map (·.observation)) =
          .ok (some centre) := hCentre
      simp only [hHere, ok_bind, distancesFrom, hRun]
      rfl
    · rw [hRelated.length_eq, ← Nat.zero_add distances.length]
      refine firstLargest_lt ?_
      rw [← hRelated.length_eq]
      simp

/-- Candidates whose observations have one arity can be put into the order of diversity, whatever
the numbers are. -/
theorem exists_induct (fuel : Nat) {pool : List Entry}
    (h : ∀ entry ∈ pool, entry.observation.arity = arity) :
    ∃ order, induct fuel pool = .ok order := by
  induction fuel generalizing pool with
  | zero => exact ⟨[], rfl⟩
  | succ fuel ih =>
      cases pool with
      | nil => exact ⟨[], rfl⟩
      | cons first rest =>
          obtain ⟨position, hPosition, hLess⟩ := exists_nextPosition h
          have hLeft : ∀ entry ∈ (first :: rest).eraseIdx position,
              entry.observation.arity = arity :=
            fun entry hMem => h entry (List.mem_of_mem_eraseIdx hMem)
          obtain ⟨order, hOrder⟩ := ih hLeft
          refine ⟨((first :: rest).get ⟨position, hLess⟩).index :: order, ?_⟩
          simp only [induct, hPosition, ok_bind, List.getElem?_eq_getElem hLess, hOrder]
          rfl

/-- Candidates bound to one goal, with observations of one arity, have an order of diversity. -/
theorem exists_rank {goal : Goal} {candidates : List (Evaluated τ)}
    (hGoal : ∀ candidate ∈ candidates, candidate.goal = goal)
    (hArity : ∀ candidate ∈ candidates,
      (candidate.execution.observation.getD .empty).arity = arity) :
    ∃ order, rank goal candidates = .ok order := by
  have hObserved : ∀ candidate ∈ candidates, ∃ observation,
      (if candidate.goal = goal then .ok (candidate.execution.observation.getD .empty)
        else .error (.foreignCandidate candidate.goal goal) : Except Fault Observation) =
        .ok observation ∧ observation.arity = arity :=
    fun candidate hMem => ⟨_, if_pos (hGoal candidate hMem), hArity candidate hMem⟩
  obtain ⟨found, hFound, hRelated⟩ := exists_mapM_eq_ok hObserved
  have hEntries : ∀ entry ∈ entries found, entry.observation.arity = arity := by
    intro entry hMem
    obtain ⟨i, hi, rfl⟩ := List.mem_mapIdx.mp hMem
    obtain ⟨_, -, hOne⟩ := exists_left_of_related hRelated (List.getElem_mem hi)
    exact hOne
  obtain ⟨order, hOrder⟩ := exists_induct (entries found).length hEntries
  exact ⟨order, by simp only [rank, observations, hFound, ok_bind, hOrder]⟩

/-- The candidates that meet a goal, in the order of diversity. -/
def Arranges (goal : Goal) (covering candidates : List (Evaluated τ)) : Prop :=
  ∃ order, rank goal covering = .ok order ∧
    List.Forall₂ (fun i candidate => covering[i]? = some candidate) order candidates

/-- The order of diversity has every candidate once. -/
theorem perm_of_induct {fuel : Nat} {pool : List Entry} {order : List Nat}
    (hFuel : pool.length ≤ fuel) (h : induct fuel pool = .ok order) :
    order.Perm (pool.map (·.index)) := by
  induction fuel generalizing pool order with
  | zero =>
      rw [List.length_eq_zero_iff.mp (Nat.le_zero.mp hFuel)]
      cases h
      exact .nil
  | succ fuel ih =>
      cases pool with
      | nil =>
          cases h
          exact .nil
      | cons first rest =>
          obtain ⟨position, -, hTaken⟩ := exists_of_bind_eq_ok h
          dsimp only at hTaken
          split at hTaken
          · cases hTaken
          · rename_i entry hEntry
            obtain ⟨later, hLater, hAnswer⟩ := exists_of_bind_eq_ok hTaken
            cases hAnswer
            obtain ⟨hPosition, rfl⟩ := List.getElem?_eq_some_iff.mp hEntry
            have hLeft : ((first :: rest).eraseIdx position).length ≤ fuel := by
              rw [List.length_eraseIdx_of_lt hPosition]
              exact Nat.sub_le_of_le_add hFuel
            refine ((ih hLeft hLater).cons _).trans ?_
            exact (List.getElem_cons_eraseIdx_perm hPosition).map (·.index)

/-- An order of diversity names every place of the candidates, each once. -/
theorem perm_of_rank {goal : Goal} {candidates : List (Evaluated τ)} {order : List Nat}
    (h : rank goal candidates = .ok order) : order.Perm (List.range candidates.length) := by
  obtain ⟨observations, hObservations, hOrder⟩ := exists_of_bind_eq_ok h
  have hLength : observations.length = candidates.length :=
    (related_of_mapM_eq_ok hObservations).length_eq.symm
  have hIndices : (entries observations).map (·.index) = List.range candidates.length := by
    rw [← hLength]
    refine List.ext_getElem (by simp [entries]) fun i h₁ h₂ => ?_
    simp [entries]
  rw [← hIndices]
  exact perm_of_induct (Nat.le_refl _) hOrder

theorem Arranges.perm {goal : Goal} {covering candidates : List (Evaluated τ)}
    (h : Arranges goal covering candidates) : candidates.Perm covering := by
  obtain ⟨order, hOrder, hFetched⟩ := h
  exact perm_of_places hFetched (perm_of_rank hOrder)

/-- There is only one order of diversity. -/
theorem Arranges.unique {goal : Goal} {covering candidates others : List (Evaluated τ)}
    (h : Arranges goal covering candidates) (h' : Arranges goal covering others) :
    candidates = others := by
  obtain ⟨order, hOrder, hFetched⟩ := h
  obtain ⟨order', hOrder', hFetched'⟩ := h'
  obtain rfl : order = order' := Except.ok.inj (hOrder.symm.trans hOrder')
  have hSame : candidates.map some = others.map some :=
    (map_eq_map_of_related (hFetched.imp fun _ _ h => h.symm)).trans
      (map_eq_map_of_related (hFetched'.imp fun _ _ h => h.symm)).symm
  exact List.map_injective_iff.mpr (Option.some_injective _) hSame

theorem arranges_nil (goal : Goal) : Arranges goal ([] : List (Evaluated τ)) [] :=
  ⟨[], rfl, .nil⟩

variable [HasCode τ]

/-- Candidates that are bound to the goal already are not evaluated again. -/
theorem refresh_of_bound (executor : Executor τ) {goal : Goal} {row : List (Evaluated τ)}
    (h : ∀ candidate ∈ row, candidate.goal = goal) :
    refresh executor goal row = pure (row.filter (·.isCovered)) := by
  have hBound : (row.mapM fun candidate =>
      if candidate.goal = goal then pure candidate
      else Evaluator.evaluate executor candidate.chromosome goal : Evaluation _) = pure row := by
    induction row with
    | nil => rfl
    | cons first rest ih =>
        rw [List.mapM_cons, if_pos (h first List.mem_cons_self), pure_bind,
          ih fun candidate hMem => h candidate (List.mem_cons_of_mem _ hMem), pure_bind]
  unfold refresh
  rw [hBound, pure_bind]

end Diversity

end WitnessSearch
