import WitnessSearch.Proofs.Ranking.Regrouping

/-! The survivors that a ranking selects. The loop over the fronts takes the first candidates of the
order, as many as are wanted or as there are. Room is made for as many as are wanted, though, so a
number that is too large is refused even where few candidates could be taken. -/

namespace WitnessSearch.Ranking

/-- A candidate that is taken stands ahead of every candidate that is left. -/
theorem ahead_of_mem_take {ranking : Ranking} (hOnce : ranking.order.Nodup) {count a r p b s q : ℕ}
    (ha : ranking.StandsAt a r p) (hb : ranking.StandsAt b s q)
    (hTaken : a ∈ ranking.order.take count) (hLeft : b ∉ ranking.order.take count) :
    r < s ∨ r = s ∧ p < q := by
  have hOrder := pairwise_spots ranking []
  rw [← List.take_append_drop count (ranking.spots []), List.pairwise_append] at hOrder
  rw [← map_candidate_spots ranking [], ← List.map_take, List.mem_map] at hTaken hLeft
  obtain ⟨first, hFirst, rfl⟩ := hTaken
  have hBehind : (⟨s + 0, s, q, b⟩ : Placed) ∈ (ranking.spots []).drop count := by
    have hMem : (⟨s + 0, s, q, b⟩ : Placed) ∈ ranking.spots [] := mem_spots.mpr ⟨rfl, hb⟩
    rw [← List.take_append_drop count (ranking.spots []), List.mem_append] at hMem
    exact hMem.resolve_left fun hHere => hLeft ⟨_, hHere, rfl⟩
  obtain ⟨-, hStands⟩ := mem_spots.mp (List.mem_of_mem_take hFirst)
  obtain ⟨rfl, rfl⟩ := hStands.unique hOnce ha
  exact hOrder.2.2 first hFirst _ hBehind

/-- Without room for the count, the selection stops with an overflow. This is so even where there
are fewer candidates than the count. -/
theorem select_of_no_room (ranking : Ranking) {count : ℕ}
    (h : ¬Checked.wordBytes * count ≤ Checked.listBytes) :
    ranking.select count = .error .capacityOverflow := by
  rw [select, Checked.reserve, if_neg h]
  rfl

/-- Selection from a ranking of rows of numbers whose candidates may have been pushed back. The loop
over the fronts takes the first candidates of the order, whatever number is wanted. They are the
survivors if there is room for as many as are wanted: different rows, each of which stands ahead of
every row that is left, and the first of them are those that are selected when fewer are wanted.
Without the room nothing is selected. -/
theorem select_takes_first {preference : Bool} {rows : List (List Float)} {ranking : Ranking}
    (hRanking : Arises preference rows ranking) (hNumeric : ∀ row ∈ rows, IsNumeric row)
    (count : ℕ) :
    takeFronts count [] ranking.fronts = .ok (ranking.order.take (min count rows.length)) ∧
      (Checked.wordBytes * count ≤ Checked.listBytes →
        ∃ selected, ranking.select count = .ok selected ∧
          selected = ranking.order.take (min count rows.length) ∧
          selected.length = min count rows.length ∧
          selected.Nodup ∧ (∀ i ∈ selected, i < rows.length) ∧
          (∀ a r p, ranking.StandsAt a r p → ∀ b s q, ranking.StandsAt b s q →
            a ∈ selected → b ∉ selected → r < s ∨ r = s ∧ p < q) ∧
          ∀ fewer, fewer ≤ count → ∃ first, ranking.select fewer = .ok first ∧
            first <+: selected) ∧
      (¬Checked.wordBytes * count ≤ Checked.listBytes →
        ranking.select count = .error .capacityOverflow) := by
  have hParts : ranking.order.Perm (List.range rows.length) := (hRanking.parts hNumeric).partition
  have hOnce : ranking.order.Nodup := hParts.nodup_iff.mpr List.nodup_range
  have hLength : ranking.order.length = rows.length := by simpa using hParts.length_eq
  have hAll : ranking.order.take count = ranking.order.take (min count rows.length) := by
    rw [← hLength, ← List.take_take, List.take_length]
  refine ⟨by rw [takeFronts_nil, hAll], fun hRoom => ?_, ranking.select_of_no_room⟩
  refine ⟨_, ranking.select_of_room hRoom, hAll, ?_, hOnce.sublist (List.take_sublist _ _),
    fun i hi => ?_, fun a r p ha b s q hb => ahead_of_mem_take hOnce ha hb, fun fewer hFewer => ?_⟩
  · rw [List.length_take, hLength]
  · exact List.mem_range.mp (hParts.subset (List.mem_of_mem_take hi))
  · exact ⟨_, ranking.select_of_room ((Nat.mul_le_mul_left _ hFewer).trans hRoom),
      List.take_prefix_take_left hFewer⟩

/-- The second front of these rows has only room for one of its two members. -/
theorem select_takes_first_crossed :
    ∃ ranking, Arises true crossedRows ranking ∧ (∀ row ∈ crossedRows, IsNumeric row) ∧
      ranking.fronts = [[0, 2], [1, 4], [3]] ∧ ranking.select 3 = .ok [0, 2, 1] ∧
      ranking.select 7 = .ok [0, 2, 1, 4, 3] := by
  have hNumeric := isNumeric_of_mem_crossedRows
  obtain ⟨ranking, hRanking, hFronts⟩ := exists_crossed
  obtain ⟨-, hFew, -⟩ := select_takes_first (.ranked hRanking) hNumeric 3
  obtain ⟨-, hMany, -⟩ := select_takes_first (.ranked hRanking) hNumeric 7
  obtain ⟨_, hFirst, rfl, -⟩ := hFew (by decide)
  obtain ⟨_, hAll, rfl, -⟩ := hMany (by decide)
  rw [order, hFronts] at hFirst hAll
  exact ⟨ranking, .ranked hRanking, hNumeric, hFronts, hFirst, hAll⟩

/-- Not every number of survivors can be asked for. -/
theorem exists_unselectable :
    ¬∀ (preference : Bool) (rows : List (List Float)) (ranking : Ranking),
      Arises preference rows ranking → (∀ row ∈ rows, IsNumeric row) →
        ∀ count, count < Checked.countLimit →
          ranking.select count = .ok (ranking.order.take (min count rows.length)) := by
  intro h
  obtain ⟨ranking, hRanking, -⟩ := exists_crossed
  have hSelected := h true crossedRows ranking (.ranked hRanking) isNumeric_of_mem_crossedRows
    (2 ^ 60) (by decide)
  rw [ranking.select_of_no_room (by decide)] at hSelected
  cases hSelected

end WitnessSearch.Ranking
