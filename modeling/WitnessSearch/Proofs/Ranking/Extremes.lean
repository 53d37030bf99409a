import WitnessSearch.Proofs.Float.Signs
import WitnessSearch.Proofs.Ranking.Distances

/-! The order inside the fronts. The distances of all candidates share one array, and the fronts are
finished one after another. What is set for one front stays while the others are finished, since the
fronts have no member in common. So each front falls by the distances of the whole ranking, and on
every objective a least and a greatest member come first. -/

namespace WitnessSearch.Ranking

open Crowding Fronts FloatRounding

/-- The members of a front by falling distance, and equally far ones in the order of the rows. -/
def Falls (distances : Distances) (front : List ℕ) : Prop :=
  front.Pairwise fun a b => distances.getD b 0.0 < distances.getD a 0.0 ∨
    (distances.getD a 0.0 == distances.getD b 0.0) = true ∧ a < b

/-- A front that is finished. -/
structure Finished (rows : Rows) (width : ℕ) (distances : Distances) (front : List ℕ) : Prop where
  falls : Falls distances front
  ends : ∀ objective, objective < width → KeepsEnds (value rows objective) distances front

variable {rows : Rows} {width : ℕ} {distances : Distances}

/-- Sorted by falling distance, a layer falls, with equal distances in ascending order. -/
theorem falls_stableSort (h : NoneNegative distances) {layer : List ℕ}
    (hAscending : layer.Pairwise (· < ·)) :
    Falls distances (stableSort
      (fun a b => decide (distances.getD b 0.0 < distances.getD a 0.0)) layer) := by
  refine (pairwise_stableSort (isWeakOrder_keys_falling h.isNaN_getD) hAscending).imp ?_
  intro a b hStands
  simp only [Precedes, decide_eq_true_eq, decide_eq_false_iff_not] at hStands
  by_cases hLess : distances.getD b 0.0 < distances.getD a 0.0
  · exact .inl hLess
  · obtain ⟨hNot, hBefore⟩ := hStands.resolve_left hLess
    exact .inr ⟨FloatOrder.beq_of_not_lt (h.isNaN_getD a) (h.isNaN_getD b) hNot hLess, hBefore⟩

/-- A front is cut at its far end: as long as an infinitely far member is cut off, only such members
are kept. -/
theorem Falls.isInf_of_mem_take {front : List ℕ} (h : Falls distances front)
    (hNone : NoneNegative distances) {count i j : ℕ} (hi : i ∈ front) (hCut : i ∉ front.take count)
    (hInf : (distances.getD i 0.0).isInf = true) (hj : j ∈ front.take count) :
    (distances.getD j 0.0).isInf = true := by
  have hDropped : i ∈ front.drop count := by
    rw [← List.take_append_drop count front, List.mem_append] at hi
    exact hi.resolve_left hCut
  rw [Falls, ← List.take_append_drop count front] at h
  refine (hNone.getD i).isInf_of_not_lt (hNone.getD j) hInf ?_
  rcases (List.pairwise_append.mp h).2.2 j hj i hDropped with hFarther | ⟨hEqual, -⟩
  · exact FloatOrder.lt_asymm (hNone.isNaN_getD i) (hNone.isNaN_getD j) hFarther
  · rw [FloatOrder.beq_comm] at hEqual
    exact FloatOrder.not_lt_of_le (FloatOrder.le_iff_lt_or_beq.mpr (.inr hEqual))

/-- Only the distances of its members matter to a front. -/
theorem Finished.congr {distances' : Distances} {front : List ℕ}
    (h : Finished rows width distances front)
    (hSame : ∀ i ∈ front, distances'[i]? = distances[i]?) :
    Finished rows width distances' front where
  falls := by
    refine List.Pairwise.imp_of_mem (fun ha hb hStands => ?_) h.falls
    simpa only [Array.getD_eq_getD_getElem?, hSame _ ha, hSame _ hb] using hStands
  ends objective hObjective :=
    (h.ends objective hObjective).congr fun i hi hEnd => (hSame i hi).trans hEnd

section Finish

variable (hMeasured : ∀ row ∈ rows, IsMeasured row) (width)
include hMeasured

/-- Finishing a layer orders it by the distances that were assigned to it, and goes well if none is
negative. -/
theorem exists_finish (h : NoneNegative distances) (fronts : List (List ℕ)) {layer : List ℕ}
    (hSome : layer ≠ []) (hAscending : layer.Pairwise (· < ·))
    (hBound : ∀ i ∈ layer, i < distances.size) :
    ∃ distances' front,
      finish rows width (distances, fronts) layer = .ok (distances', fronts ++ [front]) ∧
      front.Perm layer ∧ distances'.size = distances.size ∧ NoneNegative distances' ∧
      (∀ i, i ∉ layer → distances'[i]? = distances[i]?) ∧
      Finished rows width distances' front := by
  obtain ⟨distances', hRun, hAssigns⟩ := exists_assign_spec hMeasured width layer distances
  have hNext := hAssigns.noneNegative h
  have hOrdered := sortByKey_of_numeric (fun a b => decide (b < a))
    (fun i => distances'.getD i 0.0) layer fun i _ => hNext.isNaN_getD i
  have hPerm := perm_stableSort
    (fun a b => decide (distances'.getD b 0.0 < distances'.getD a 0.0)) layer
  refine ⟨distances', _, ?_, hPerm, hAssigns.size, hNext, fun _ => hAssigns.elsewhere,
    falls_stableSort hNext hAscending,
    fun objective hObjective => (hAssigns.ends hSome hBound objective hObjective).perm hPerm.symm⟩
  simp only [finish, hRun, ok_bind, ordered]
  rw [hOrdered]
  rfl

/-- No front is touched again once it is finished. -/
theorem exists_finishAll (h : NoneNegative distances) (fronts : List (List ℕ))
    {layers : List (List ℕ)} (hSome : ∀ layer ∈ layers, layer ≠ [])
    (hAscending : ∀ layer ∈ layers, layer.Pairwise (· < ·))
    (hBound : ∀ i ∈ layers.flatten, i < distances.size) (hApart : layers.flatten.Nodup) :
    ∃ distances' fronts',
      layers.foldlM (finish rows width) (distances, fronts) =
        .ok (distances', fronts ++ fronts') ∧
      distances'.size = distances.size ∧ NoneNegative distances' ∧
      (∀ i, i ∉ layers.flatten → distances'[i]? = distances[i]?) ∧
      ∀ front ∈ fronts', Finished rows width distances' front := by
  induction layers generalizing distances fronts with
  | nil =>
      exact ⟨distances, [], by simp; rfl, rfl, h, fun _ _ => rfl, nofun⟩
  | cons layer layers ih =>
      obtain ⟨hFirstSome, hLaterSome⟩ := List.forall_mem_cons.mp hSome
      obtain ⟨hFirstAscending, hLaterAscending⟩ := List.forall_mem_cons.mp hAscending
      rw [List.flatten_cons] at hBound hApart
      obtain ⟨-, hLaterApart, hDisjoint⟩ := List.nodup_append.mp hApart
      obtain ⟨middle, front, hRun, hPerm, hSize, hMiddle, hElsewhere, hFinished⟩ :=
        exists_finish width hMeasured h fronts hFirstSome hFirstAscending
          fun i hi => hBound i (List.mem_append_left _ hi)
      obtain ⟨distances', fronts', hRuns, hSize', hLast, hKept, hAll⟩ :=
        ih hMiddle (fronts ++ [front]) hLaterSome hLaterAscending
          (fun i hi => hSize.symm ▸ hBound i (List.mem_append_right _ hi)) hLaterApart
      refine ⟨distances', front :: fronts', ?_, hSize'.trans hSize, hLast, ?_, ?_⟩
      · rw [List.foldlM_cons, hRun]
        simpa using hRuns
      · intro i hi
        rw [List.flatten_cons, List.mem_append, not_or] at hi
        exact (hKept i hi.2).trans (hElsewhere i hi.1)
      · refine List.forall_mem_cons.mpr ⟨hFinished.congr fun i hi => hKept i fun hLater => ?_, hAll⟩
        exact hDisjoint i (hPerm.subset hi) i hLater rfl

end Finish

/-- The order inside the fronts, for rows of one length of finite numbers that are not negative.
Every distance is a number and none is negative. Each front falls by the distances, equally far
members in the order of the rows. On every objective a member that none is below and one that none
is above are infinitely far, and when a front is cut such members go last: if one of them is cut off
then only infinitely far members are kept. -/
theorem fronts_keep_extremes (preference : Bool) {rows : List (List Float)} {width : ℕ}
    (hWidth : 0 < width) (hLength : ∀ row ∈ rows, row.length = width)
    (hFinite : ∀ row ∈ rows, ∀ x ∈ row, x.isFinite = true ∧ 0.0 ≤ x) :
    ∃ ranking, ofRows preference rows = .ok ranking ∧
      ranking.crowding.size = rows.length ∧
      (∀ x ∈ ranking.crowding, x.isNaN = false ∧ ¬x < 0.0) ∧
      ∀ front ∈ ranking.fronts,
        Falls ranking.crowding front ∧
        (∀ objective, objective < width →
          KeepsEnds (value rows.toArray objective) ranking.crowding front) ∧
        ∀ count, (∃ i ∈ front, i ∉ front.take count ∧
            (ranking.crowding.getD i 0.0).isInf = true) →
          ∀ j ∈ front.take count, (ranking.crowding.getD j 0.0).isInf = true := by
  rcases Nat.eq_zero_or_pos rows.length with hEmpty | hRows
  · obtain rfl := List.length_eq_zero_iff.mp hEmpty
    exact ⟨_, rfl, rfl, by simp, nofun⟩
  have hMeasured : ∀ row ∈ rows.toArray, IsMeasured row := by
    intro row hRow x hx
    obtain ⟨hFinite, hNonneg⟩ := hFinite row (by simpa using hRow) x hx
    exact exists_value hFinite (FloatOrder.not_lt_of_le hNonneg)
  obtain ⟨others, hOthers, hLayering, hAscending⟩ := exists_layers preference
    (fun row hRow => (hMeasured row hRow).isNumeric) (by simpa using hLength)
    (by simpa using hRows) hWidth
  generalize hLayers : aside rows.toArray width preference ++ others = layers
    at hLayering hAscending
  have hMembers : ∀ i ∈ layers.flatten, i < (Array.replicate rows.length (0.0 : Float)).size := by
    intro i hi
    simpa using hLayering.partition.subset hi
  obtain ⟨distances, fronts, hRun, hSize, hNone, -, hAll⟩ :=
    exists_finishAll width hMeasured (noneNegative_replicate rows.length) [] hLayering.nonempty
      hAscending hMembers (hLayering.partition.nodup_iff.mpr List.nodup_range)
  have hRanking : ofRows preference rows = .ok ⟨fronts, distances⟩ := by
    rw [ofRows_eq (List.length_pos_iff.mp hRows) hWidth hLength hOthers, hLayers, hRun]
    rfl
  refine ⟨_, hRanking, by simpa using hSize, fun x hx => ?_, fun front hFront => ?_⟩
  · obtain ⟨i, hi⟩ := Array.mem_iff_getElem?.mp hx
    exact ⟨(hNone i x hi).isNaN, (hNone i x hi).not_lt_zero⟩
  · have hFinished := hAll front hFront
    refine ⟨hFinished.falls, hFinished.ends, ?_⟩
    rintro count ⟨i, hi, hCut, hInf⟩ j hj
    exact hFinished.falls.isInf_of_mem_take hNone hi hCut hInf hj

/-- In the first front of these rows one member has neighbours on both objectives. -/
theorem fronts_keep_extremes_crossed :
    0 < 2 ∧ (∀ row ∈ crossedRows, row.length = 2) ∧
    (∀ row ∈ crossedRows, ∀ x ∈ row, x.isFinite = true ∧ 0.0 ≤ x) ∧
    ∃ ranking, ofRows false crossedRows = .ok ranking ∧
      ∀ front ∈ ranking.fronts, Falls ranking.crowding front ∧
        ∀ objective, objective < 2 →
          KeepsEnds (value crossedRows.toArray objective) ranking.crowding front := by
  have hLength : ∀ row ∈ crossedRows, row.length = 2 := by decide
  have hFinite : ∀ row ∈ crossedRows, ∀ x ∈ row, x.isFinite = true ∧ 0.0 ≤ x := by decide +kernel
  obtain ⟨ranking, hRanking, -, -, hFronts⟩ :=
    fronts_keep_extremes false Nat.two_pos hLength hFinite
  exact ⟨Nat.two_pos, hLength, hFinite, ranking, hRanking, fun front hFront =>
    ⟨(hFronts front hFront).1, (hFronts front hFront).2.1⟩⟩

end WitnessSearch.Ranking
