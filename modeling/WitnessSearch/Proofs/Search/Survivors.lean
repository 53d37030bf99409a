import WitnessSearch.Proofs.Checked
import WitnessSearch.Proofs.Evaluation.Records
import WitnessSearch.Proofs.Ranking.Demotion
import WitnessSearch.Proofs.Ranking.Exactness
import WitnessSearch.Search.Generation

/-! Who survives a pass. The candidates to use again come first and the ranked ones after them. A
candidate is left out if its fingerprint is taken or the population is complete, so the room that
was left for ranked candidates need not be used up. -/

namespace WitnessSearch

variable {τ : Type} [HasCode τ]

/-- If a table relates its rows and columns, so does the table with the two exchanged. -/
theorem Evaluator.related_transpose {α β γ : Type} {related : α → β → γ → Prop} {xs : List α}
    {ys : List β} {table : List (List γ)}
    (h : List.Forall₂ (fun y row => List.Forall₂ (fun x z => related x y z) xs row) ys table) :
    List.Forall₂ (fun x row => List.Forall₂ (related x) ys row) xs
      (transpose xs.length table) := by
  induction h with
  | nil =>
      rw [transpose, List.foldr_nil, List.forall₂_iff_zip]
      refine ⟨List.length_replicate.symm, fun hMem => ?_⟩
      rw [List.eq_of_mem_replicate (List.of_mem_zip hMem).2]
      exact .nil
  | @cons y row ys table hRow _ ih =>
      change List.Forall₂ _ xs (List.zipWith (· :: ·) row (transpose xs.length table))
      generalize transpose xs.length table = columns at ih
      clear * - hRow ih
      induction hRow generalizing columns with
      | nil =>
          cases ih
          exact .nil
      | cons hFirst _ ihRow =>
          cases ih with
          | cons hColumn hColumns => exact .cons (.cons hFirst hColumn) (ihRow _ hColumns)

omit [HasCode τ] in
theorem Evaluator.length_transpose {α : Type} {width : Nat} {rows : List (List α)}
    (h : ∀ row ∈ rows, row.length = width) : (transpose width rows).length = width := by
  induction rows with
  | nil => simp [transpose]
  | cons row rows ih =>
      obtain ⟨hRow, hRows⟩ := List.forall_mem_cons.mp h
      have hRest := ih hRows
      simp_all [transpose]

namespace Search

/-- What holds of a population in the making. -/
structure Roster.Fits (size : Nat) (roster : Roster τ) : Prop where
  taken : ∀ fingerprint,
    fingerprint ∈ roster.taken ↔ fingerprint ∈ roster.members.map Chromosome.fingerprint
  distinct : (roster.members.map Chromosome.fingerprint).Nodup
  length : roster.members.length ≤ size

theorem Roster.fits_nil (size : Nat) : Roster.Fits size (⟨[], []⟩ : Roster τ) :=
  ⟨fun _ => Iff.rfl, List.nodup_nil, Nat.zero_le _⟩

/-- Adding to a roster keeps it within its size and without repetitions. -/
theorem Roster.Fits.add {size : Nat} {roster : Roster τ} (h : roster.Fits size)
    (chromosome : Chromosome τ) : (roster.add size chromosome).Fits size := by
  unfold Roster.add
  dsimp only
  split
  · exact h
  · rename_i hNew
    obtain ⟨hRoom, hFree⟩ := not_or.mp hNew
    refine ⟨fun fingerprint => ?_, ?_, ?_⟩
    · simp [h.taken, or_comm]
    · rw [List.map_append, List.nodup_append']
      refine ⟨h.distinct, List.nodup_singleton _, ?_⟩
      rw [List.map_singleton, List.disjoint_singleton, ← h.taken]
      exact hFree
    · rw [List.length_append, List.length_singleton]
      omega

/-- Some of the candidates that apply are added, in their order. -/
theorem Roster.Fits.addAll {size : Nat} {roster : Roster τ} (h : roster.Fits size)
    (applying : List (Chromosome τ)) :
    (applying.foldl (Roster.add size) roster).Fits size ∧
      ∃ added, added.Sublist applying ∧
        (applying.foldl (Roster.add size) roster).members = roster.members ++ added := by
  induction applying generalizing roster with
  | nil => exact ⟨h, [], .slnil, (List.append_nil _).symm⟩
  | cons first rest ih =>
      obtain ⟨hFits, added, hAdded, hMembers⟩ := ih (h.add first)
      refine ⟨hFits, ?_⟩
      rw [List.foldl_cons, hMembers]
      by_cases hOut : size ≤ roster.members.length ∨ first.fingerprint ∈ roster.taken
      · exact ⟨added, hAdded.cons first, by simp [Roster.add, hOut]⟩
      · exact ⟨first :: added, hAdded.cons_cons first, by simp [Roster.add, hOut]⟩

/-- If there is room for all that apply, each gets a place or has the fingerprint of a member. -/
theorem Roster.Fits.mem_addAll {size : Nat} {roster : Roster τ} (h : roster.Fits size)
    {applying : List (Chromosome τ)} (hRoom : roster.members.length + applying.length ≤ size)
    {chromosome : Chromosome τ} (hMem : chromosome ∈ applying) :
    chromosome.fingerprint ∈
      (applying.foldl (Roster.add size) roster).members.map Chromosome.fingerprint := by
  induction applying generalizing roster with
  | nil => cases hMem
  | cons first rest ih =>
      rw [List.length_cons] at hRoom
      have hLonger : (roster.add size first).members.length ≤ roster.members.length + 1 := by
        unfold Roster.add
        dsimp only
        split
        · exact Nat.le_succ _
        · rw [List.length_append, List.length_singleton]
      rcases List.mem_cons.mp hMem with rfl | hLater
      · obtain ⟨-, added, -, hMembers⟩ := (h.add chromosome).addAll rest
        have hPlace : chromosome.fingerprint ∈
            (roster.add size chromosome).members.map Chromosome.fingerprint := by
          unfold Roster.add
          dsimp only
          split
          · rename_i hOut
            exact (h.taken _).mp (hOut.resolve_left (by omega))
          · simp
        rw [List.foldl_cons, hMembers, List.map_append]
        exact List.mem_append_left _ hPlace
      · exact ih (h.add first) (by omega) hLater

/-- The contenders that the ranking puts first are the ones that apply for the places which the
candidates to use again leave. -/
theorem ahead_of_survivors {size : Nat} {recycled : List (Chromosome τ)}
    {pool : List (Contender τ)} {ranking : Ranking} {kept : List (Chromosome τ)}
    (h : survivors size recycled pool ranking = .ok kept) :
    ∃ ahead : List (Contender τ),
      List.Forall₂ (fun i contender => pool[i]? = some contender) (ranking.order.take
        (size - (recycled.foldl (Roster.add size) ⟨[], []⟩).members.length)) ahead ∧
      kept = ((ahead.map (·.chromosome)).foldl (Roster.add size)
        (recycled.foldl (Roster.add size) ⟨[], []⟩)).members := by
  obtain ⟨_, -, h⟩ := exists_of_bind_eq_ok h
  obtain ⟨room, hRoom, h⟩ := exists_of_bind_eq_ok h
  obtain ⟨order, hOrder, h⟩ := exists_of_bind_eq_ok h
  obtain ⟨fetched, hFetched, h⟩ := exists_of_bind_eq_ok h
  cases h
  obtain ⟨-, rfl⟩ := Checked.subCounts_eq_ok_iff.mp hRoom
  obtain rfl := Ranking.select_eq_ok hOrder
  exact ⟨fetched, (related_of_mapM_eq_ok hFetched).imp fun _ _ => Checked.fetch_eq_ok_iff.mp, rfl⟩

/-- The survivors are some of the candidates to use again, and then some of the contenders. -/
theorem survivors_eq_ok {size : Nat} {recycled : List (Chromosome τ)}
    {pool : List (Contender τ)} {ranking : Ranking} {kept : List (Chromosome τ)}
    (h : survivors size recycled pool ranking = .ok kept) :
    (kept.map Chromosome.fingerprint).Nodup ∧ kept.length ≤ size ∧
      ∃ reused ranked, kept = reused ++ ranked ∧ reused.Sublist recycled ∧
        ranked ⊆ pool.map (·.chromosome) := by
  obtain ⟨ahead, hAhead, rfl⟩ := ahead_of_survivors h
  obtain ⟨hReused, reused, hFirst, hMembers⟩ := (Roster.fits_nil size).addAll recycled
  obtain ⟨hFits, ranked, hLater, hAll⟩ := hReused.addAll (ahead.map (·.chromosome))
  refine ⟨hFits.distinct, hFits.length, reused, ranked, ?_, hFirst, ?_⟩
  · rw [hAll, hMembers, List.nil_append]
  · exact List.Subset.trans hLater.subset (List.map_subset _ (subset_of_places hAhead))

/-- A ranking and the survivors by it, as they are found by evaluation. -/
theorem exists_survivors_of_eval [DecidableEq (Chromosome τ)] {config : RankingConfig}
    {archive : Archive τ} {size : Nat} {pool : List (Contender τ)} {kept : List (Chromosome τ)}
    (h : (match rankContenders config archive pool with
      | .ok ranking => decide ((survivors size [] pool ranking).toOption = some kept)
      | .error _ => false) = true) :
    ∃ ranking, rankContenders config archive pool = .ok ranking ∧
      survivors size [] pool ranking = .ok kept := by
  split at h
  · rename_i ranking hRanking
    have hKept := of_decide_eq_true h
    cases hAnswer : survivors size [] pool ranking with
    | ok others =>
        rw [hAnswer] at hKept
        exact ⟨ranking, hRanking, by rw [hAnswer, Option.some.inj hKept]⟩
    | error fault =>
        rw [hAnswer] at hKept
        cases hKept
  · cases h

/-- Contenders with rows of numbers all have their place in the ranking. -/
theorem perm_of_rankContenders {config : RankingConfig} {archive : Archive τ}
    {pool : List (Contender τ)} {ranking : Ranking}
    (h : rankContenders config archive pool = .ok ranking)
    (hNumeric : ∀ contender ∈ pool, IsNumeric contender.fitness) :
    ranking.order.Perm (List.range pool.length) := by
  obtain ⟨first, hFirst, h⟩ := exists_of_bind_eq_ok h
  have hPerm := Ranking.perm_of_ofRows hFirst (List.forall_mem_map.mpr hNumeric)
  rw [List.length_map] at hPerm
  split at h
  · exact (Ranking.perm_of_demote h).trans hPerm
  · cases h
    exact hPerm

/-- The contenders are the candidates that missed all goals of the pass, in their order. -/
theorem map_chromosome_contenders {goals : List Goal} (remaining : List Goal)
    {candidates : List (Chromosome τ)} {rows : List (List (Evaluated τ))} {evaluator : Evaluator}
    (h : List.Forall₂ (evaluator.RecordsRow candidates) goals rows) :
    (contenders goals remaining candidates (Evaluator.transpose candidates.length
        (rows.map fun row => row.map (·.fitness)))).map (·.chromosome) =
      candidates.filter fun chromosome =>
        goals.all fun goal => !evaluator.meets chromosome goal := by
  have hTable : List.Forall₂ (fun goal row => List.Forall₂ (fun chromosome fitness =>
      evaluator.meets chromosome goal = (fitness == 0.0)) candidates row) goals
      (rows.map fun row => row.map (·.fitness)) := by
    refine List.forall₂_map_right_iff.mpr (h.imp fun goal row hRow => ?_)
    refine List.forall₂_map_right_iff.mpr (hRow.imp ?_)
    rintro _ candidate ⟨rfl, rfl, hRecords⟩
    exact hRecords.meets_eq
  have hColumns := Evaluator.related_transpose hTable
  generalize Evaluator.transpose _ _ = columns at hColumns
  clear hTable h
  unfold contenders
  induction hColumns with
  | nil => rfl
  | @cons chromosome column candidates columns hColumn _ ih =>
      have hMissed : (goals.all fun goal => !evaluator.meets chromosome goal) =
          !column.any (· == 0.0) := by
        rw [← any_eq_any_of_related hColumn, List.not_any_eq_all_not]
      rw [List.zip_cons_cons, List.filterMap_cons, List.filter_cons, hMissed]
      dsimp only
      cases column.any (· == 0.0) with
      | true => exact ih
      | false => exact congrArg (chromosome :: ·) ih

/-- A contender is a candidate that missed all goals of the pass. -/
theorem missed_of_mem_contenders {goals remaining : List Goal}
    {candidates : List (Chromosome τ)} {rows : List (List (Evaluated τ))} {evaluator : Evaluator}
    (h : List.Forall₂ (evaluator.RecordsRow candidates) goals rows) {chromosome : Chromosome τ}
    (hMem : chromosome ∈ (contenders goals remaining candidates (Evaluator.transpose
      candidates.length (rows.map fun row => row.map (·.fitness)))).map (·.chromosome)) :
    chromosome ∈ candidates ∧ ∀ goal ∈ goals, evaluator.meets chromosome goal = false := by
  rw [map_chromosome_contenders remaining h, List.mem_filter] at hMem
  simpa using hMem

end Search

end WitnessSearch
