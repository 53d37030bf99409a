import WitnessSearch.Proofs.Diversity
import WitnessSearch.Proofs.Float.Signs

/-! One round of the order of diversity. As long as one of the candidates left has a positive
internal diversity the most diverse one is next, and then the one farthest from their centroid.
There is no centroid of observations of different arity. The candidates are split at the one that is
next, so that a tie shows as what is strictly less before it. -/

namespace WitnessSearch

open FloatRounding

namespace Observation

/-- A sum of distances does not fall below zero, whatever the numbers are. -/
theorem not_pairwiseDistances_lt_zero {sum : Float} (h : ¬sum < 0.0) (values : List Float) :
    ¬pairwiseDistances sum values < 0.0 := by
  induction values generalizing sum with
  | nil => exact h
  | cons value later ih =>
      refine ih (List.foldlRecOn (motive := fun total => ¬total < 0.0) later _ h ?_)
      exact fun total hTotal other _ => not_add_lt_zero hTotal (not_abs_lt_zero _)

/-- An internal diversity is never below zero. It may be no number, though, as its components may be
none. -/
theorem not_internalDiversity_lt_zero (observation : Observation) :
    ¬observation.internalDiversity < 0.0 := by
  rw [internalDiversity]
  split
  · exact hasValue_zero.nonnegative.not_lt_zero
  · rename_i hMany
    refine not_div_count_lt_zero (not_pairwiseDistances_lt_zero
      hasValue_zero.nonnegative.not_lt_zero _) ?_
    have hPairs : 2 * 1 ≤ observation.arity * (observation.arity - 1) :=
      Nat.mul_le_mul (by omega) (by omega)
    omega

/-- An internal diversity that is a number is positive or zero. -/
theorem internalDiversity_beq_zero {observation : Observation}
    (hNumber : observation.internalDiversity.isNaN = false) :
    (observation.internalDiversity == 0.0) = true ↔ ¬0.0 < observation.internalDiversity :=
  ⟨fun hZero => FloatOrder.not_lt_of_le (FloatOrder.le_iff_lt_or_beq.mpr (.inr hZero)),
    FloatOrder.beq_of_not_lt hNumber rfl observation.not_internalDiversity_lt_zero⟩

/-- A sum of observations fails at the first one of another arity. -/
theorem exists_foldlM_mismatch {sum : Observation} {rest : List Observation}
    (h : ∃ observation ∈ rest, sum.arity ≠ observation.arity) :
    ∃ arity, sum.arity ≠ arity ∧
      rest.foldlM accumulate sum = .error (.centroidArity sum.arity arity) := by
  induction rest generalizing sum with
  | nil => simp at h
  | cons first rest ih =>
      rw [List.foldlM_cons]
      by_cases hFirst : sum.arity = first.arity
      · obtain ⟨next, hNext, hArity⟩ := exists_accumulate hFirst rfl
        have hLater : ∃ observation ∈ rest, next.arity ≠ observation.arity := by
          rw [hArity, ← hFirst]
          simpa [hFirst] using h
        rw [hNext, ok_bind, hFirst, ← hArity]
        exact ih hLater
      · exact ⟨first.arity, hFirst, by rw [accumulate, if_neg hFirst]; rfl⟩

/-- Observations of two arities have no centroid. -/
theorem exists_centroid_mismatch {pool : List Observation}
    (h : ∃ a ∈ pool, ∃ b ∈ pool, a.arity ≠ b.arity) :
    ∃ a b, a ≠ b ∧ centroid pool = .error (.centroidArity a b) := by
  cases pool with
  | nil => simp at h
  | cons first rest =>
      have hOther : ∃ observation ∈ rest, first.arity ≠ observation.arity := by
        by_contra hNone
        push Not at hNone
        have hAll : ∀ observation ∈ first :: rest, observation.arity = first.arity :=
          List.forall_mem_cons.mpr ⟨rfl, fun observation hMem => (hNone observation hMem).symm⟩
        obtain ⟨a, ha, b, hb, hNe⟩ := h
        exact hNe ((hAll a ha).trans (hAll b hb).symm)
      obtain ⟨arity, hNe, hRun⟩ := exists_foldlM_mismatch hOther
      exact ⟨first.arity, arity, hNe, by rw [centroid, hRun]; rfl⟩

end Observation

namespace Diversity

/-- In a pool that is split at one place, this is the first place with the largest measure. -/
def Leads (measure : Nat → Float) (earlier : List Nat) (place : Nat) (later : List Nat) : Prop :=
  (∀ other ∈ earlier, measure other < measure place) ∧
    ∀ other ∈ later, ¬measure place < measure other

section Largest

variable {measure : Nat → Float}

theorem Leads.cons {first place : Nat} {earlier later : List Nat}
    (h : Leads measure earlier place later) (hFirst : measure first < measure place) :
    Leads measure (first :: earlier) place later :=
  ⟨List.forall_mem_cons.mpr ⟨hFirst, h.1⟩, h.2⟩

/-- The search for the largest measure ends at the first largest one, or at the best so far if none
is larger. -/
theorem firstLargest_cases {pool : List Nat}
    (hPool : ∀ place ∈ pool, (measure place).isNaN = false) (best : Nat × Float)
    (hBest : best.2.isNaN = false) (position : Nat) :
    (firstLargest position best (pool.map measure) = best.1 ∧
      ∀ place ∈ pool, ¬best.2 < measure place) ∨
    ∃ earlier place later, pool = earlier ++ place :: later ∧
      firstLargest position best (pool.map measure) = position + earlier.length ∧
      best.2 < measure place ∧ Leads measure earlier place later := by
  induction pool generalizing best position with
  | nil => exact .inl ⟨rfl, by simp⟩
  | cons first rest ih =>
      obtain ⟨hFirst, hRest⟩ := List.forall_mem_cons.mp hPool
      rw [List.map_cons, firstLargest]
      by_cases hLarger : best.2 < measure first
      · rw [if_pos hLarger]
        right
        rcases ih hRest (position, measure first) hFirst (position + 1) with
          ⟨hFound, hNone⟩ | ⟨earlier, place, later, rfl, hFound, hAbove, hLeads⟩
        · exact ⟨[], first, rest, rfl, hFound, hLarger, by simp, hNone⟩
        · have hPlace := hRest place (by simp)
          refine ⟨first :: earlier, place, later, rfl, ?_, ?_, hLeads.cons hAbove⟩
          · rw [hFound, List.length_cons]
            omega
          · exact FloatOrder.lt_of_lt_of_not_lt hBest hFirst hPlace hLarger
              (FloatOrder.lt_asymm hFirst hPlace hAbove)
      · rw [if_neg hLarger]
        rcases ih hRest best hBest (position + 1) with
          ⟨hFound, hNone⟩ | ⟨earlier, place, later, rfl, hFound, hAbove, hLeads⟩
        · exact .inl ⟨hFound, List.forall_mem_cons.mpr ⟨hLarger, hNone⟩⟩
        · have hPlace := hRest place (by simp)
          refine .inr ⟨first :: earlier, place, later, rfl, ?_, hAbove, hLeads.cons ?_⟩
          · rw [hFound, List.length_cons]
            omega
          · exact FloatOrder.lt_of_not_lt_of_lt hFirst hBest hPlace hLarger hAbove

/-- Among numbers there is a first largest one. The pool splits at its place, and what stands before
it measures less. -/
theorem exists_leads {first : Nat} {rest : List Nat}
    (hPool : ∀ place ∈ first :: rest, (measure place).isNaN = false) :
    ∃ earlier place later, first :: rest = earlier ++ place :: later ∧
      firstLargest 1 (0, measure first) (rest.map measure) = earlier.length ∧
      Leads measure earlier place later := by
  obtain ⟨hFirst, hRest⟩ := List.forall_mem_cons.mp hPool
  rcases firstLargest_cases hRest (0, measure first) hFirst 1 with
    ⟨hFound, hNone⟩ | ⟨earlier, place, later, rfl, hFound, hAbove, hLeads⟩
  · exact ⟨[], first, rest, rfl, hFound, by simp, hNone⟩
  · exact ⟨first :: earlier, place, later, rfl, hFound.trans (Nat.add_comm _ _),
      hLeads.cons hAbove⟩

/-- The search may begin below all numbers. -/
theorem exists_leads_above {pool : List Nat} (hSome : pool ≠ [])
    (hPool : ∀ place ∈ pool, (measure place).isNaN = false) :
    ∃ earlier place later, pool = earlier ++ place :: later ∧
      firstLargest 0 (0, -1.0 / 0.0) (pool.map measure) = earlier.length ∧
      Leads measure earlier place later := by
  rcases firstLargest_cases hPool (0, -1.0 / 0.0) rfl 0 with
    ⟨hFound, hNone⟩ | ⟨earlier, place, later, hSplit, hFound, -, hLeads⟩
  · obtain ⟨first, rest, rfl⟩ := List.exists_cons_of_ne_nil hSome
    refine ⟨[], first, rest, rfl, hFound, by simp, fun other hOther => ?_⟩
    exact FloatOrder.not_lt_trans (hPool other (by simp [hOther])) rfl (hPool first (by simp))
      (hNone other (by simp [hOther])) (FloatOrder.not_lt_negInfinity _)
  · exact ⟨earlier, place, later, hSplit, hFound.trans (Nat.zero_add _), hLeads⟩

/-- A positive measure shows in the largest one. -/
theorem lt_largest_iff {first : Float} {rest : List Float} (hFirst : first.isNaN = false)
    (hRest : ∀ number ∈ rest, number.isNaN = false) :
    0.0 < largest first rest ↔ ∃ number ∈ first :: rest, 0.0 < number := by
  induction rest generalizing first with
  | nil => simp [largest]
  | cons number rest ih =>
      obtain ⟨hNumber, hLater⟩ := List.forall_mem_cons.mp hRest
      have hStep : largest first (number :: rest) =
          largest (if first < number then number else first) rest := rfl
      rw [hStep]
      split
      · rename_i hLess
        rw [ih hNumber hLater, List.exists_mem_cons_iff (a := first)]
        refine (or_iff_right_of_imp fun hPositive => ⟨number, List.mem_cons_self, ?_⟩).symm
        exact FloatOrder.lt_of_lt_of_not_lt rfl hFirst hNumber hPositive
          (FloatOrder.lt_asymm hFirst hNumber hLess)
      · rename_i hLess
        rw [ih hFirst hLater]
        simp only [List.exists_mem_cons_iff]
        have hImplied : 0.0 < number → 0.0 < first := fun hPositive =>
          FloatOrder.lt_of_lt_of_not_lt rfl hNumber hFirst hPositive hLess
        tauto

end Largest

section Rounds

variable (observe : Nat → Observation)

def entryAt (place : Nat) : Entry :=
  ⟨place, observe place, (observe place).internalDiversity⟩

/-- The candidate at this place is the first of those farthest from the centroid of the pool, unless
a distance is not a number. -/
def Farthest (earlier : List Nat) (place : Nat) (later : List Nat) : Prop :=
  let pool := earlier ++ place :: later
  ∃ (centre : Observation) (away : Nat → Float),
    Observation.centroid (pool.map observe) = .ok (some centre) ∧
    (∀ other ∈ pool, (observe other).distance centre = .ok (away other)) ∧
    ((∀ other ∈ pool, (away other).isNaN = false) → Leads away earlier place later)

variable {observe : Nat → Observation}

section Round

variable {first : Nat} {rest : List Nat}

theorem diversities_entries (pool : List Nat) :
    (pool.map (entryAt observe)).map (·.diversity) =
      pool.map fun place => (observe place).internalDiversity := by
  rw [List.map_map]
  rfl

/-- The largest internal diversity is positive exactly if that of some place is. -/
theorem lt_largest_entries
    (hNumbers : ∀ place ∈ first :: rest, (observe place).internalDiversity.isNaN = false) :
    0.0 < largest (entryAt observe first).diversity
        ((rest.map (entryAt observe)).map (·.diversity)) ↔
      ∃ place ∈ first :: rest, 0.0 < (observe place).internalDiversity := by
  obtain ⟨hFirst, hRest⟩ := List.forall_mem_cons.mp hNumbers
  rw [diversities_entries, entryAt, lt_largest_iff hFirst (by simpa using hRest)]
  simp

/-- As long as there is a positive diversity, the most diverse candidate is next. -/
theorem nextPosition_of_positive
    (hNumbers : ∀ place ∈ first :: rest, (observe place).internalDiversity.isNaN = false)
    (hPositive : ∃ place ∈ first :: rest, 0.0 < (observe place).internalDiversity) :
    ∃ earlier place later, first :: rest = earlier ++ place :: later ∧
      nextPosition (entryAt observe first) (rest.map (entryAt observe)) = .ok earlier.length ∧
      0.0 < (observe place).internalDiversity ∧
      Leads (fun other => (observe other).internalDiversity) earlier place later := by
  let measure : Nat → Float := fun other => (observe other).internalDiversity
  have hMeasured : ∀ place ∈ first :: rest, (measure place).isNaN = false := hNumbers
  obtain ⟨earlier, place, later, hSplit, hFound, hLeads⟩ := exists_leads hMeasured
  refine ⟨earlier, place, later, hSplit, ?_, ?_, hLeads⟩
  · simp only [nextPosition]
    rw [if_pos ((lt_largest_entries hNumbers).mpr hPositive), diversities_entries]
    exact congrArg _ hFound
  · obtain ⟨other, hOther, hAbove⟩ := hPositive
    have hPlace := hNumbers place (by rw [hSplit]; simp)
    rw [hSplit, List.mem_append, List.mem_cons] at hOther
    have hNumber := hNumbers other (by rw [hSplit]; simpa using hOther)
    rcases hOther with hEarlier | rfl | hLater
    · exact FloatOrder.lt_of_lt_of_not_lt rfl hNumber hPlace hAbove
        (FloatOrder.lt_asymm hNumber hPlace (hLeads.1 other hEarlier))
    · exact hAbove
    · exact FloatOrder.lt_of_lt_of_not_lt rfl hNumber hPlace hAbove (hLeads.2 other hLater)

variable (hNumbers : ∀ place ∈ first :: rest, (observe place).internalDiversity.isNaN = false)
  (hFlat : ∀ place ∈ first :: rest, ¬0.0 < (observe place).internalDiversity)
include hNumbers hFlat

/-- Without a positive diversity the next place depends on the centroid. -/
theorem nextPosition_of_flat :
    nextPosition (entryAt observe first) (rest.map (entryAt observe)) = (do
      match ← Observation.centroid ((first :: rest).map observe) with
      | none => return 0
      | some centre =>
        let distances ← distancesFrom centre ((first :: rest).map (entryAt observe))
        return firstLargest 0 (0, -1.0 / 0.0) distances) := by
  have hObserved : (entryAt observe first :: rest.map (entryAt observe)).map (·.observation) =
      (first :: rest).map observe := by
    rw [← List.map_cons, List.map_map]
    rfl
  have hNone : ¬∃ place ∈ first :: rest, 0.0 < (observe place).internalDiversity := by
    push Not
    exact hFlat
  simp only [nextPosition]
  rw [if_neg ((lt_largest_entries hNumbers).not.mpr hNone), hObserved]
  rfl

/-- The candidate farthest from the centroid is next. A distance that is no number is never the
largest, but there is a position even if all of them are. -/
theorem exists_farthest {arity : Nat}
    (hArity : ∀ place ∈ first :: rest, (observe place).arity = arity) :
    ∃ earlier place later, first :: rest = earlier ++ place :: later ∧
      nextPosition (entryAt observe first) (rest.map (entryAt observe)) = .ok earlier.length ∧
      Farthest observe earlier place later := by
  let pool := first :: rest
  obtain ⟨centre, hCentre, hCentreArity⟩ : ∃ centre,
      Observation.centroid (pool.map observe) = .ok (some centre) ∧ centre.arity = arity :=
    Observation.exists_centroid (by simpa using hArity)
  have hDistance : ∀ place, ∃ length, place ∈ pool →
      (observe place).distance centre = .ok length := by
    intro place
    by_cases hMem : place ∈ pool
    · obtain ⟨length, hLength⟩ :=
        Observation.exists_distance ((hArity place hMem).trans hCentreArity.symm)
      exact ⟨length, fun _ => hLength⟩
    · exact ⟨0.0, fun h => absurd h hMem⟩
  choose away hAway using hDistance
  have hDistances : distancesFrom centre (pool.map (entryAt observe)) = .ok (pool.map away) := by
    rw [distancesFrom, List.mapM_map]
    exact mapM_eq_ok_map hAway
  have hPosition : nextPosition (entryAt observe first) (rest.map (entryAt observe)) =
      .ok (firstLargest 0 (0, -1.0 / 0.0) (pool.map away)) := by
    rw [nextPosition_of_flat hNumbers hFlat, hCentre, ok_bind]
    dsimp only
    rw [hDistances]
    rfl
  by_cases hAll : ∀ place ∈ pool, (away place).isNaN = false
  · obtain ⟨earlier, place, later, hSplit, hFound, hLeads⟩ :=
      exists_leads_above (List.cons_ne_nil _ _) hAll
    refine ⟨earlier, place, later, hSplit, hPosition.trans (congrArg _ hFound), centre, away, ?_⟩
    rw [← hSplit]
    exact ⟨hCentre, hAway, fun _ => hLeads⟩
  · have hPlace : firstLargest 0 (0, -1.0 / 0.0) (pool.map away) < pool.length := by
      rw [← List.length_map away, ← Nat.zero_add (pool.map away).length]
      exact firstLargest_lt (by simp [pool])
    let position := firstLargest 0 (0, -1.0 / 0.0) (pool.map away)
    have hSplit : pool = pool.take position ++ pool[position] :: pool.drop (position + 1) := by
      rw [List.cons_getElem_drop_succ, List.take_append_drop]
    refine ⟨_, _, _, hSplit, ?_, centre, away, ?_⟩
    · rw [hPosition, List.length_take_of_le hPlace.le]
    · rw [← hSplit]
      exact ⟨hCentre, hAway, fun h => absurd h hAll⟩

/-- If no place is varied and two of them have observations of different arity, there is no next
place. -/
theorem nextPosition_of_mismatch
    (hMismatch : ∃ i ∈ first :: rest, ∃ j ∈ first :: rest,
      (observe i).arity ≠ (observe j).arity) :
    ∃ a b, a ≠ b ∧ nextPosition (entryAt observe first) (rest.map (entryAt observe)) =
      .error (.centroidArity a b) := by
  obtain ⟨i, hi, j, hj, hNe⟩ := hMismatch
  obtain ⟨a, b, hArities, hCentroid⟩ := Observation.exists_centroid_mismatch
    ⟨_, List.mem_map_of_mem hi, _, List.mem_map_of_mem hj, hNe⟩
  refine ⟨a, b, hArities, ?_⟩
  rw [nextPosition_of_flat hNumbers hFlat, hCentroid]
  rfl

end Round

end Rounds

end Diversity

end WitnessSearch
