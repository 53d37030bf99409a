import WitnessSearch.Proofs.Diversity.Rounds
import WitnessSearch.Proofs.Search.Reachable

/-! What the order of diversity is. The candidates whose observations have a positive internal
diversity come first, the more diverse before the less. What is left then is taken from outside
inwards, each time the candidate farthest from the centroid of those left. The pool only ever loses
candidates, so it stays in the order of their places, and a tie goes to the lowest place. -/

namespace WitnessSearch.Diversity

variable {τ : Type}

section Pool

variable (observe : Nat → Observation)

/-- The places of a pool from the outside inwards: the farthest of those left is always next. -/
inductive Inwards : List Nat → List Nat → Prop
  | nil : Inwards [] []
  | take {earlier later order : List Nat} {place : Nat}
      (farthest : Farthest observe earlier place later)
      (next : Inwards (earlier ++ later) order) :
      Inwards (earlier ++ place :: later) (place :: order)

/-- The places from the most diverse to the least, and equally diverse ones from the lowest to the
highest. -/
def Descending (places : List Nat) : Prop :=
  places.Pairwise fun first second =>
    (observe second).internalDiversity < (observe first).internalDiversity ∨
      ((observe first).internalDiversity == (observe second).internalDiversity) = true ∧
        first < second

def varied (pool : List Nat) : List Nat :=
  pool.filter fun place => 0.0 < (observe place).internalDiversity

def flat (pool : List Nat) : List Nat :=
  pool.filter fun place => (observe place).internalDiversity == 0.0

variable {observe : Nat → Observation}

/-- A round takes the candidate at the next position out of the pool. -/
theorem induct_split (fuel : Nat) {first place : Nat} {rest earlier later : List Nat}
    (hSplit : first :: rest = earlier ++ place :: later)
    (hPosition : nextPosition (entryAt observe first) (rest.map (entryAt observe)) =
      .ok earlier.length) :
    induct (fuel + 1) ((first :: rest).map (entryAt observe)) =
      (place :: ·) <$> induct fuel ((earlier ++ later).map (entryAt observe)) := by
  have hFound : ((first :: rest).map (entryAt observe))[earlier.length]? =
      some (entryAt observe place) := by
    rw [hSplit]
    simp
  have hLeft : ((first :: rest).map (entryAt observe)).eraseIdx earlier.length =
      (earlier ++ later).map (entryAt observe) := by
    rw [hSplit, List.map_append, List.map_append, List.map_cons,
      List.eraseIdx_append_of_length_le (by simp)]
    simp
  rw [List.map_cons] at hFound hLeft ⊢
  simp only [induct, hPosition, ok_bind, hFound, hLeft]
  cases induct fuel ((earlier ++ later).map (entryAt observe)) <;> rfl

/-- Taking one place out of a pool leaves one place less. -/
theorem length_split {fuel place : Nat} {earlier later : List Nat}
    (h : (earlier ++ place :: later).length = fuel + 1) : (earlier ++ later).length = fuel := by
  simp only [List.length_append, List.length_cons] at h ⊢
  omega

/-- A pool without positive internal diversity is taken from the outside inwards, provided that all
its observations have one arity. -/
theorem induct_inwards {fuel : Nat} {pool : List Nat} (hFuel : pool.length = fuel)
    (hNumbers : ∀ place ∈ pool, (observe place).internalDiversity.isNaN = false)
    (hFlat : ∀ place ∈ pool, ¬0.0 < (observe place).internalDiversity)
    {arity : Nat} (hArity : ∀ place ∈ pool, (observe place).arity = arity) :
    ∃ order, induct fuel (pool.map (entryAt observe)) = .ok order ∧
      Inwards observe pool order := by
  induction fuel generalizing pool with
  | zero =>
      obtain rfl := List.eq_nil_of_length_eq_zero hFuel
      exact ⟨[], rfl, .nil⟩
  | succ fuel ih =>
      obtain ⟨first, rest, rfl⟩ := List.exists_cons_of_length_eq_add_one hFuel
      obtain ⟨earlier, place, later, hSplit, hPosition, hFarthest⟩ :=
        exists_farthest hNumbers hFlat hArity
      have hRun := induct_split fuel hSplit hPosition
      rw [hSplit] at hFuel hNumbers hFlat hArity hRun ⊢
      have hLeft : earlier ++ later ⊆ earlier ++ place :: later := by simp
      obtain ⟨order, hOrder, hInwards⟩ := ih (length_split hFuel)
        (fun other h => hNumbers other (hLeft h)) (fun other h => hFlat other (hLeft h))
        fun other h => hArity other (hLeft h)
      exact ⟨place :: order, by rw [hRun, hOrder]; rfl, .take hFarthest hInwards⟩

/-- Taking a place of positive diversity leaves the flat places as they are. -/
theorem flat_split {earlier later : List Nat} {place : Nat}
    (hPositive : 0.0 < (observe place).internalDiversity) :
    flat observe (earlier ++ place :: later) = flat observe (earlier ++ later) := by
  have hNot : ((observe place).internalDiversity == 0.0) = false := by
    rw [Bool.eq_false_iff]
    intro hZero
    exact FloatOrder.not_lt_of_le (FloatOrder.le_iff_lt_or_beq.mpr (.inr hZero)) hPositive
  rw [flat, flat, List.filter_append, List.filter_append,
    List.filter_cons_of_neg (by simpa using hNot)]

/-- The places of positive diversity are the one that was taken and those that are left. -/
theorem varied_split {earlier later : List Nat} {place : Nat}
    (hPositive : 0.0 < (observe place).internalDiversity) :
    (varied observe (earlier ++ place :: later)).Perm
      (place :: varied observe (earlier ++ later)) := by
  rw [varied, varied, List.filter_append, List.filter_append,
    List.filter_cons_of_pos (by simpa using hPositive)]
  exact List.perm_middle

/-- The most diverse place goes ahead of the order of the others. -/
theorem Descending.cons {order earlier later : List Nat} {place : Nat}
    (h : Descending observe order)
    (hNumbers : ∀ other ∈ earlier ++ place :: later,
      (observe other).internalDiversity.isNaN = false)
    (hAscending : (earlier ++ place :: later).Pairwise (· < ·))
    (hLeads : Leads (fun other => (observe other).internalDiversity) earlier place later)
    (hOrder : ∀ other ∈ order, other ∈ earlier ++ later) : Descending observe (place :: order) := by
  refine List.pairwise_cons.mpr ⟨fun other hOther => ?_, h⟩
  rcases List.mem_append.mp (hOrder other hOther) with hEarlier | hLater
  · exact .inl (hLeads.1 other hEarlier)
  · by_cases hLess : (observe other).internalDiversity < (observe place).internalDiversity
    · exact .inl hLess
    · have hBehind : place < other :=
        List.rel_of_pairwise_cons (List.pairwise_append.mp hAscending).2.1 hLater
      exact .inr ⟨FloatOrder.beq_of_not_lt (hNumbers place (by simp))
        (hNumbers other (by simp [hLater])) (hLeads.2 other hLater) hLess, hBehind⟩

/-- The order of any pool begins with the places of positive diversity, the more diverse ones first,
and goes on with the flat ones from the outside inwards. -/
theorem induct_orders {fuel : Nat} {pool : List Nat} (hFuel : pool.length = fuel)
    (hNumbers : ∀ place ∈ pool, (observe place).internalDiversity.isNaN = false)
    (hAscending : pool.Pairwise (· < ·))
    (hArity : ∀ i ∈ flat observe pool, ∀ j ∈ flat observe pool,
      (observe i).arity = (observe j).arity) :
    ∃ descending inwards,
      induct fuel (pool.map (entryAt observe)) = .ok (descending ++ inwards) ∧
      descending.Perm (varied observe pool) ∧ Descending observe descending ∧
      Inwards observe (flat observe pool) inwards := by
  induction fuel generalizing pool with
  | zero =>
      obtain rfl := List.eq_nil_of_length_eq_zero hFuel
      exact ⟨[], [], rfl, .nil, .nil, .nil⟩
  | succ fuel ih =>
      obtain ⟨first, rest, rfl⟩ := List.exists_cons_of_length_eq_add_one hFuel
      by_cases hPositive : ∃ place ∈ first :: rest, 0.0 < (observe place).internalDiversity
      · obtain ⟨earlier, place, later, hSplit, hPosition, hAbove, hLeads⟩ :=
          nextPosition_of_positive hNumbers hPositive
        have hRun := induct_split fuel hSplit hPosition
        rw [hSplit] at hFuel hNumbers hAscending hArity hRun ⊢
        rw [flat_split hAbove] at hArity ⊢
        have hLeft : (earlier ++ later).Sublist (earlier ++ place :: later) := by simp
        obtain ⟨descending, inwards, hOrder, hPerm, hDescending, hInwards⟩ :=
          ih (length_split hFuel) (fun other h => hNumbers other (hLeft.subset h))
            (hAscending.sublist hLeft) hArity
        refine ⟨place :: descending, inwards, by rw [hRun, hOrder]; rfl,
          (hPerm.cons place).trans (varied_split hAbove).symm,
          hDescending.cons hNumbers hAscending hLeads fun other hOther => ?_, hInwards⟩
        exact List.mem_of_mem_filter (hPerm.subset hOther)
      · push Not at hPositive
        have hFlat : flat observe (first :: rest) = first :: rest :=
          List.filter_eq_self.mpr fun place hMem =>
            (Observation.internalDiversity_beq_zero (hNumbers place hMem)).mpr
              (hPositive place hMem)
        have hVaried : varied observe (first :: rest) = [] :=
          List.filter_eq_nil_iff.mpr fun place hMem => by simpa using hPositive place hMem
        rw [hFlat] at hArity ⊢
        obtain ⟨order, hOrder, hInwards⟩ := induct_inwards hFuel hNumbers hPositive
          fun place hMem => hArity place hMem first List.mem_cons_self
        exact ⟨[], order, hOrder, by rw [hVaried], .nil, hInwards⟩

/-- If two of the flat places have observations of different arity, the order gets stuck at the
first centroid. -/
theorem induct_mismatch {fuel : Nat} {pool : List Nat} (hFuel : pool.length = fuel)
    (hNumbers : ∀ place ∈ pool, (observe place).internalDiversity.isNaN = false)
    (hMismatch : ∃ i ∈ flat observe pool, ∃ j ∈ flat observe pool,
      (observe i).arity ≠ (observe j).arity) :
    ∃ a b, a ≠ b ∧ induct fuel (pool.map (entryAt observe)) = .error (.centroidArity a b) := by
  induction fuel generalizing pool with
  | zero =>
      obtain rfl := List.eq_nil_of_length_eq_zero hFuel
      simp [flat] at hMismatch
  | succ fuel ih =>
      obtain ⟨first, rest, rfl⟩ := List.exists_cons_of_length_eq_add_one hFuel
      by_cases hPositive : ∃ place ∈ first :: rest, 0.0 < (observe place).internalDiversity
      · obtain ⟨earlier, place, later, hSplit, hPosition, hAbove, -⟩ :=
          nextPosition_of_positive hNumbers hPositive
        have hRun := induct_split fuel hSplit hPosition
        rw [hSplit] at hFuel hNumbers hMismatch hRun ⊢
        rw [flat_split hAbove] at hMismatch
        have hLeft : (earlier ++ later).Sublist (earlier ++ place :: later) := by simp
        obtain ⟨a, b, hNe, hFault⟩ := ih (length_split hFuel)
          (fun other h => hNumbers other (hLeft.subset h)) hMismatch
        exact ⟨a, b, hNe, by rw [hRun, hFault]; rfl⟩
      · push Not at hPositive
        obtain ⟨i, hi, j, hj, hArities⟩ := hMismatch
        obtain ⟨a, b, hNe, hFault⟩ := nextPosition_of_mismatch hNumbers hPositive
          ⟨i, List.mem_of_mem_filter hi, j, List.mem_of_mem_filter hj, hArities⟩
        exact ⟨a, b, hNe, by rw [List.map_cons, induct, hFault]; rfl⟩

end Pool

def observed (candidates : List (Evaluated τ)) (place : Nat) : Observation :=
  (candidates[place]?.bind (·.execution.observation)).getD .empty

section Rank

variable {goal : Goal} {candidates : List (Evaluated τ)}
  (hGoal : ∀ candidate ∈ candidates, candidate.goal = goal)
include hGoal

/-- The pool begins with all places in their order. -/
theorem exists_entries :
    ∃ found, observations goal candidates = .ok found ∧
      entries found = (List.range candidates.length).map (entryAt (observed candidates)) := by
  refine ⟨candidates.map fun candidate => candidate.execution.observation.getD .empty, ?_, ?_⟩
  · exact mapM_eq_ok_map fun candidate hMem => if_pos (hGoal candidate hMem)
  · refine List.ext_getElem (by simp [entries]) fun i h₁ h₂ => ?_
    have hPlace : i < candidates.length := by simpa using h₂
    simp [entries, entryAt, observed, hPlace]

/-- Ranking is the order of the pool of all places, in the order in which the candidates were given.
-/
theorem rank_eq_induct :
    rank goal candidates = induct candidates.length
      ((List.range candidates.length).map (entryAt (observed candidates))) := by
  obtain ⟨found, hFound, hEntries⟩ := exists_entries hGoal
  rw [rank, hFound, ok_bind, hEntries]
  simp

/-- The best candidate is the one that the order begins with. -/
theorem selectBest_of_rank {first : Nat} {rest : List Nat}
    (h : rank goal candidates = .ok (first :: rest)) : selectBest goal candidates = .ok first := by
  obtain ⟨found, hFound, hEntries⟩ := exists_entries hGoal
  rw [rank_eq_induct hGoal] at h
  cases hLength : candidates.length with
  | zero =>
      rw [hLength] at h
      cases h
  | succ count =>
      rw [hLength] at h hEntries
      obtain ⟨head, tail, hPool⟩ : ∃ head tail,
          (List.range (count + 1)).map (entryAt (observed candidates)) = head :: tail :=
        List.exists_cons_of_ne_nil (by simp)
      rw [hPool] at h hEntries
      obtain ⟨position, hPosition, hTaken⟩ := exists_of_bind_eq_ok h
      have hBest : selectBest goal candidates = .ok position := by
        have hSome : candidates.isEmpty = false := by
          rw [List.isEmpty_eq_false_iff, ← List.length_pos_iff, hLength]
          exact Nat.succ_pos count
        simp only [selectBest, hSome, hFound, ok_bind, hEntries, hPosition]
        rfl
      dsimp only at hTaken
      split at hTaken
      · cases hTaken
      · rename_i entry hEntry
        obtain ⟨order, -, hOrder⟩ := exists_of_bind_eq_ok hTaken
        cases hOrder
        rw [← hPool, List.getElem?_map, Option.map_eq_some_iff] at hEntry
        obtain ⟨place, hPlace, rfl⟩ := hEntry
        obtain ⟨-, rfl⟩ := List.getElem?_eq_some_iff.mp hPlace
        rw [hBest]
        simp [entryAt]

end Rank

/-- The order of diversity, for candidates bound to the goal whose internal diversities are numbers.
It does not exist exactly if two candidates of zero internal diversity have observations of
different arity, since these have no centroid. Otherwise it has every place once. The candidates of
positive internal diversity come first, the more diverse before the less and equally diverse ones in
the order of their places, and then those of zero internal diversity, the farthest from the centroid
of those left always being next. The best candidate is the first of the order. -/
theorem rank_orders_by_diversity (goal : Goal) (candidates : List (Evaluated τ))
    (hGoal : ∀ candidate ∈ candidates, candidate.goal = goal)
    (hNumbers : ∀ candidate ∈ candidates,
      (candidate.execution.observation.getD .empty).internalDiversity.isNaN = false) :
    let places := List.range candidates.length
    let observe := observed candidates
    let mismatch := ∃ i ∈ flat observe places, ∃ j ∈ flat observe places,
      (observe i).arity ≠ (observe j).arity
    (mismatch → ∃ a b, a ≠ b ∧ rank goal candidates = .error (.centroidArity a b)) ∧
    (¬mismatch → ∃ descending inwards,
      rank goal candidates = .ok (descending ++ inwards) ∧
      (descending ++ inwards).Perm places ∧
      descending.Perm (varied observe places) ∧ Descending observe descending ∧
      Inwards observe (flat observe places) inwards ∧
      (candidates ≠ [] → ∃ first rest, descending ++ inwards = first :: rest ∧
        selectBest goal candidates = .ok first)) := by
  intro places observe mismatch
  have hRank : rank goal candidates = induct candidates.length (places.map (entryAt observe)) :=
    rank_eq_induct hGoal
  have hLength : places.length = candidates.length := List.length_range
  have hPlaces : ∀ place ∈ places, (observe place).internalDiversity.isNaN = false := by
    intro place hMem
    have hPlace : place < candidates.length := List.mem_range.mp hMem
    have hNumber := hNumbers _ (List.getElem_mem hPlace)
    simpa [observe, observed, hPlace] using hNumber
  constructor
  · intro hMismatch
    rw [hRank]
    exact induct_mismatch hLength hPlaces hMismatch
  · intro hMatch
    have hArity : ∀ i ∈ flat observe places, ∀ j ∈ flat observe places,
        (observe i).arity = (observe j).arity :=
      fun i hi j hj => by_contra fun hNe => hMatch ⟨i, hi, j, hj, hNe⟩
    obtain ⟨descending, inwards, hOrder, hPerm, hDescending, hInwards⟩ :=
      induct_orders hLength hPlaces List.pairwise_lt_range hArity
    rw [← hRank] at hOrder
    have hAll := perm_of_rank hOrder
    refine ⟨descending, inwards, hOrder, hAll, hPerm, hDescending, hInwards, fun hSome => ?_⟩
    obtain ⟨first, rest, hFirst⟩ : ∃ first rest, descending ++ inwards = first :: rest := by
      refine List.exists_cons_of_ne_nil fun hNone => hSome ?_
      have hNobody := hAll.length_eq
      rw [hNone, List.length_range] at hNobody
      exact List.eq_nil_of_length_eq_zero hNobody.symm
    exact ⟨first, rest, hFirst, selectBest_of_rank hGoal (hFirst ▸ hOrder)⟩

/-- Two candidates that are equally diverse and three that are not diverse at all. -/
def spread : List (Evaluated InputVector) :=
  [[5.0], [1.0, 3.0], [0.0], [2.0, 4.0], [10.0]].map fun values =>
    ⟨Search.trialCall "f", (Search.trialCall "f").fingerprint, Search.trialGoal,
      .covered (some ⟨values⟩)⟩

/-- The first and the last of the candidates without diversity are equally far from the others when
it is their turn. -/
theorem rank_orders_by_diversity_spread :
    (∀ candidate ∈ spread, candidate.goal = Search.trialGoal) ∧
    (∀ candidate ∈ spread,
      (candidate.execution.observation.getD .empty).internalDiversity.isNaN = false) ∧
    ∃ descending inwards, rank Search.trialGoal spread = .ok (descending ++ inwards) ∧
      descending ++ inwards = [1, 3, 2, 0, 4] ∧
      Descending (observed spread) descending ∧
      Inwards (observed spread) (flat (observed spread) (List.range 5)) inwards := by
  have hGoal : ∀ candidate ∈ spread, candidate.goal = Search.trialGoal := by decide +kernel
  have hNumbers : ∀ candidate ∈ spread,
      (candidate.execution.observation.getD .empty).internalDiversity.isNaN = false := by
    decide +kernel
  obtain ⟨-, hOrdered⟩ := rank_orders_by_diversity Search.trialGoal spread hGoal hNumbers
  obtain ⟨descending, inwards, hRank, -, -, hDescending, hInwards, -⟩ :=
    hOrdered (by decide +kernel)
  have hOrder : (rank Search.trialGoal spread).toOption = some [1, 3, 2, 0, 4] := by decide +kernel
  rw [hRank] at hOrder
  exact ⟨hGoal, hNumbers, descending, inwards, hRank, Option.some.inj hOrder, hDescending, hInwards⟩

end WitnessSearch.Diversity
