import WitnessSearch.Proofs.Ranking.Crowding
import WitnessSearch.Proofs.Ranking.Layers

/-! What a ranking of rows of numbers is. Its fronts are the layers of domination, with the
preferred rows ahead of them if that is asked for. The layers always exist, but they are not always
answered: inside a layer the rows are put into the order of their crowding distances, and a layer
whose distances have no common order stops the ranking. -/

namespace WitnessSearch.Ranking

open Fronts Crowding

/-- The layers of the rows of a ranking, each in the order of the rows. -/
theorem exists_layers {rows : Rows} {width : ℕ} (preference : Bool)
    (hNumeric : ∀ row ∈ rows, IsNumeric row) (hLength : ∀ row ∈ rows, row.length = width)
    (hRows : 0 < rows.size) (hWidth : 0 < width) :
    ∃ others, ofPool rows ((List.range rows.size).filter fun i =>
        i ∉ (aside rows width preference).flatten) = .ok others ∧
      Layering rows width preference (aside rows width preference ++ others) ∧
      ∀ layer ∈ aside rows width preference ++ others, layer.Pairwise (· < ·) := by
  obtain ⟨others, hOthers, hPeels⟩ := ofPool_peels rows
    (List.pairwise_lt_range.filter fun i => decide (i ∉ (aside rows width preference).flatten))
  refine ⟨others, hOthers, layering_of_peels hNumeric hLength hRows hWidth ?_, fun layer hMem =>
    (List.mem_append.mp hMem).elim (ascending_aside layer) (hPeels.ascending layer)⟩
  have hPool : (fun i => i ∈ (List.range rows.size).filter fun i =>
      decide (i ∉ (aside rows width preference).flatten)) =
      fun i => i < rows.size ∧ i ∉ (aside rows width preference).flatten := by
    funext i
    simp only [List.mem_filter, List.mem_range, decide_eq_true_eq]
  rw [hPool] at hPeels
  simpa using hPeels.of_rest

/-- Finishing one layer after another is stopped by the first that cannot be ordered. -/
theorem finishAll_spec {rows : Rows} (width : ℕ) (hNumeric : ∀ row ∈ rows, IsNumeric row)
    {distances : Distances} (hSize : distances.size = rows.size) (fronts layers : List (List ℕ)) :
    ((∀ layer ∈ layers, Orderable rows width layer) →
      ∃ distances' fronts', List.Forall₂ List.Perm layers fronts' ∧
        layers.foldlM (finish rows width) (distances, fronts) =
          .ok (distances', fronts ++ fronts')) ∧
    ((¬∀ layer ∈ layers, Orderable rows width layer) →
      layers.foldlM (finish rows width) (distances, fronts) = .error .unorderedKeys) := by
  induction layers generalizing distances fronts with
  | nil => exact ⟨fun _ => ⟨distances, [], .nil, by simp; rfl⟩, fun h => absurd nofun h⟩
  | cons layer layers ih =>
      have hFinish := finish_spec width hNumeric hSize fronts layer
      rw [List.foldlM_cons, List.forall_mem_cons]
      by_cases hLayer : Orderable rows width layer
      · obtain ⟨distances', front, hSize', hPerm, hRun⟩ := hFinish.1 hLayer
        obtain ⟨hAll, hSome⟩ := ih hSize' (fronts ++ [front])
        simp only [hRun, ok_bind]
        constructor
        · rintro ⟨-, hLater⟩
          obtain ⟨distances'', fronts', hPerms, hRuns⟩ := hAll hLater
          exact ⟨distances'', front :: fronts', .cons hPerm hPerms, by simpa using hRuns⟩
        · intro hRefused
          exact hSome fun hLater => hRefused ⟨hLayer, hLater⟩
      · rw [hFinish.2 hLayer]
        exact ⟨fun h => absurd h.1 hLayer, fun _ => rfl⟩

/-- Ranking is the rows set aside first and the pool of the others then, each finished in turn. -/
theorem ofRows_eq {preference : Bool} {rows : List (List Float)} {width : ℕ}
    {others : List (List ℕ)} (hRows : rows ≠ []) (hWidth : 0 < width)
    (hLength : ∀ row ∈ rows, row.length = width)
    (hOthers : ofPool rows.toArray ((List.range rows.length).filter fun i =>
      i ∉ (aside rows.toArray width preference).flatten) = .ok others) :
    ofRows preference rows = (do
      let (crowding, fronts) ← (aside rows.toArray width preference ++ others).foldlM
        (finish rows.toArray width) (Array.replicate rows.length 0.0, [])
      return ⟨fronts, crowding⟩) := by
  obtain ⟨first, rest, rfl⟩ := List.exists_cons_of_ne_nil hRows
  have hFirst : first.length = width := hLength first List.mem_cons_self
  have hEqual : ((first :: rest).any fun row => decide (row.length ≠ width)) = false := by
    simpa [List.any_eq_false] using hLength
  have hSome : ¬width = 0 := Nat.ne_of_gt hWidth
  simp only [ofRows, List.head?_cons, hFirst, hEqual, hSome, Bool.false_eq_true, ↓reduceIte]
  change (ofPool _ ((List.range _).filter fun i =>
    decide (i ∉ (aside (first :: rest).toArray width preference).flatten)) >>= _) = _
  rw [hOthers]
  rfl

/-- Rows of numbers of one length are ranked by finishing their layers. -/
theorem exists_layers_finished (preference : Bool) {rows : List (List Float)} {width : ℕ}
    (hRows : rows ≠ []) (hWidth : 0 < width) (hLength : ∀ row ∈ rows, row.length = width)
    (hNumeric : ∀ row ∈ rows, IsNumeric row) :
    ∃ layers, Layering rows.toArray width preference layers ∧
      ((∀ layer ∈ layers, Orderable rows.toArray width layer) →
        ∃ ranking, ofRows preference rows = .ok ranking ∧
          List.Forall₂ List.Perm layers ranking.fronts) ∧
      ((¬∀ layer ∈ layers, Orderable rows.toArray width layer) →
        ofRows preference rows = .error .unorderedKeys) := by
  have hNumeric' : ∀ row ∈ rows.toArray, IsNumeric row := by simpa using hNumeric
  have hSize : (Array.replicate rows.length 0.0).size = rows.toArray.size := by simp
  obtain ⟨others, hOthers, hLayering, -⟩ := exists_layers preference hNumeric'
    (by simpa using hLength) (by simpa using List.length_pos_iff.mpr hRows) hWidth
  obtain ⟨hAll, hSome⟩ := finishAll_spec width hNumeric' hSize []
    (aside rows.toArray width preference ++ others)
  have hRun := ofRows_eq hRows hWidth hLength hOthers
  refine ⟨_, hLayering, ?_, ?_⟩
  · intro hOrderable
    obtain ⟨distances, fronts, hPerms, hRuns⟩ := hAll hOrderable
    rw [hRuns] at hRun
    exact ⟨_, hRun, hPerms⟩
  · intro hRefused
    rw [hRun, hSome hRefused]
    rfl

/-- Without objectives there is one front. -/
theorem ofRows_of_width_zero (preference : Bool) {rows : List (List Float)} (hRows : rows ≠ [])
    (hLength : ∀ row ∈ rows, row.length = 0) :
    ofRows preference rows =
      .ok ⟨[List.range rows.length], Array.replicate rows.length Crowding.infinite⟩ := by
  obtain ⟨first, rest, rfl⟩ := List.exists_cons_of_ne_nil hRows
  have hFirst : first.length = 0 := hLength first List.mem_cons_self
  have hEqual : ((first :: rest).any fun row => decide (row.length ≠ 0)) = false := by
    simpa [List.any_eq_false] using hLength
  simp only [ofRows, List.head?_cons, hFirst, hEqual, Bool.false_eq_true, ↓reduceIte]
  rfl

/-- Only rows of one length are ranked. -/
theorem length_eq_of_ofRows {preference : Bool} {first : List Float} {rest : List (List Float)}
    {ranking : Ranking} (h : ofRows preference (first :: rest) = .ok ranking) :
    ∀ row ∈ first :: rest, row.length = first.length := by
  by_contra hUnequal
  have hAny : ((first :: rest).any fun row => decide (row.length ≠ first.length)) = true := by
    simpa only [List.any_eq_true, decide_eq_true_eq, not_forall, exists_prop] using hUnequal
  simp only [ofRows, List.head?_cons, hAny, ↓reduceIte] at h
  cases h

/-- Fronts that have each of so many candidates once, and none of which is empty. -/
structure Parts (count : ℕ) (fronts : List (List ℕ)) : Prop where
  partition : fronts.flatten.Perm (List.range count)
  nonempty : ∀ front ∈ fronts, front ≠ []

/-- A ranking of rows of numbers has every row in one of its fronts. -/
theorem parts_of_ofRows {preference : Bool} {rows : List (List Float)} {ranking : Ranking}
    (h : ofRows preference rows = .ok ranking) (hNumeric : ∀ row ∈ rows, IsNumeric row) :
    Parts rows.length ranking.fronts := by
  cases rows with
  | nil =>
      cases h
      exact ⟨List.Perm.refl _, nofun⟩
  | cons first rest =>
      have hLength := length_eq_of_ofRows h
      have hRows : first :: rest ≠ [] := List.cons_ne_nil _ _
      rcases Nat.eq_zero_or_pos first.length with hWidth | hWidth
      · rw [ofRows_of_width_zero preference hRows (hWidth ▸ hLength)] at h
        cases h
        exact ⟨by simp, by simp⟩
      · obtain ⟨layers, hLayering, hAnswered, hRefused⟩ :=
          exists_layers_finished preference hRows hWidth hLength hNumeric
        by_cases hOrderable : ∀ layer ∈ layers, Orderable (first :: rest).toArray first.length layer
        · obtain ⟨answer, hRun, hPerms⟩ := hAnswered hOrderable
          cases h.symm.trans hRun
          have hFronts := hLayering.reorder hPerms
          exact ⟨by simpa using hFronts.partition, hFronts.nonempty⟩
        · cases h.symm.trans (hRefused hOrderable)

/-- A ranking of numeric rows has every row once. -/
theorem perm_of_ofRows {preference : Bool} {rows : List (List Float)} {ranking : Ranking}
    (h : ofRows preference rows = .ok ranking) (hNumeric : ∀ row ∈ rows, IsNumeric row) :
    ranking.fronts.flatten.Perm (List.range rows.length) :=
  (parts_of_ofRows h hNumeric).partition

/-- Rows of numbers of one length are ranked by their layers, and the ranking is answered exactly
if every layer can be put into the order of its crowding distances. -/
theorem ofRows_layering (preference : Bool) {rows : List (List Float)} {width : ℕ}
    (hRows : rows ≠ []) (hWidth : 0 < width) (hLength : ∀ row ∈ rows, row.length = width)
    (hNumeric : ∀ row ∈ rows, IsNumeric row) :
    ∃ layers, Layering rows.toArray width preference layers ∧
      ((∀ layer ∈ layers, Orderable rows.toArray width layer) →
        ∃ ranking, ofRows preference rows = .ok ranking ∧
          List.Forall₂ List.Perm layers ranking.fronts ∧
          Layering rows.toArray width preference ranking.fronts) ∧
      ((¬∀ layer ∈ layers, Orderable rows.toArray width layer) →
        ofRows preference rows = .error .unorderedKeys) := by
  obtain ⟨layers, hLayering, hAnswered, hRefused⟩ :=
    exists_layers_finished preference hRows hWidth hLength hNumeric
  refine ⟨layers, hLayering, fun hOrderable => ?_, hRefused⟩
  obtain ⟨ranking, hRun, hPerms⟩ := hAnswered hOrderable
  exact ⟨ranking, hRun, hPerms, hLayering.reorder hPerms⟩

/-- No layer has more members than there are rows. -/
theorem length_le_of_mem_layers {rows : Rows} {width : ℕ} {preference : Bool}
    {layers : List (List ℕ)} (h : Layering rows width preference layers) :
    ∀ layer ∈ layers, layer.length ≤ rows.size := by
  intro layer hMem
  have hSublist : layer.Sublist layers.flatten := List.sublist_flatten_of_mem hMem
  have hTotal : layers.flatten.length = rows.size := by
    simpa using h.partition.length_eq
  exact hTotal ▸ hSublist.length_le

/-- Rows that are first, last and in between on two objectives. -/
def crossedRows : List (List Float) :=
  [[1.0, 4.0], [2.0, 2.0], [4.0, 1.0], [3.0, 3.0], [1.0, 4.0]]

theorem ofRows_layering_crossed :
    crossedRows ≠ [] ∧ 0 < 2 ∧ (∀ row ∈ crossedRows, row.length = 2) ∧
      (∀ row ∈ crossedRows, IsNumeric row) ∧
      ∃ ranking, ofRows true crossedRows = .ok ranking ∧
        Layering crossedRows.toArray 2 true ranking.fronts := by
  have hRows : crossedRows ≠ [] := List.cons_ne_nil _ _
  have hLength : ∀ row ∈ crossedRows, row.length = 2 := by decide
  have hNumeric : ∀ row ∈ crossedRows, IsNumeric row := by
    unfold IsNumeric
    decide
  obtain ⟨layers, hLayering, hAnswered, -⟩ :=
    ofRows_layering true hRows Nat.two_pos hLength hNumeric
  have hOrderable : ∀ layer ∈ layers, Orderable crossedRows.toArray 2 layer := by
    intro layer hMem
    have hShort : layer.length ≤ 5 := length_le_of_mem_layers hLayering layer hMem
    exact .inl (hShort.trans (by decide))
  obtain ⟨ranking, hRanking, -, hFronts⟩ := hAnswered hOrderable
  exact ⟨hRows, Nat.two_pos, hLength, hNumeric, ranking, hRanking, hFronts⟩

/-- Rows none of which dominates another, the last with an infinite entry. Next to that row the gap
is as infinite as the line, and their quotient is not a number. -/
def skewedRows : List (List Float) :=
  (List.range 21).map fun i =>
    [if i = 20 then 1.0 / 0.0 else 1.0, Float.ofNat (1 + 5 * i % 21), Float.ofNat (21 - 5 * i % 21)]

theorem ofRows_skewed : ofRows false skewedRows = .error .unorderedKeys := by
  have hRefused : (match ofRows false skewedRows with
      | .error fault => decide (fault = .unorderedKeys)
      | .ok _ => false) = true := by
    decide +kernel
  split at hRefused
  · rename_i hRun
    rw [hRun, of_decide_eq_true hRefused]
  · cases hRefused

/-- Numbers of one length are not enough for a ranking. -/
theorem exists_unranked : ¬∀ (rows : List (List Float)) (width : ℕ), rows ≠ [] → 0 < width →
    (∀ row ∈ rows, row.length = width) → (∀ row ∈ rows, IsNumeric row) →
    ∃ ranking, ofRows false rows = .ok ranking := by
  intro h
  have hLength : ∀ row ∈ skewedRows, row.length = 3 := by decide +kernel
  have hNumeric : ∀ row ∈ skewedRows, IsNumeric row := by
    unfold IsNumeric
    decide +kernel
  obtain ⟨ranking, hRanking⟩ := h skewedRows 3 (by decide) (by decide) hLength hNumeric
  rw [ofRows_skewed] at hRanking
  cases hRanking

end WitnessSearch.Ranking
