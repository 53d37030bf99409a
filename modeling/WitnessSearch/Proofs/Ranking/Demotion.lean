import Mathlib.Data.List.SplitBy
import WitnessSearch.Proofs.Checked
import WitnessSearch.Proofs.Faults
import WitnessSearch.Ranking.Basic

/-! Pushing candidates back and selecting survivors. Demotion moves candidates between fronts and
loses none of them; the only thing that can go wrong is that the number of a front leaves the range
of counts. Those that are selected are the first in the order of the ranking. -/

namespace WitnessSearch.Ranking

/-- The place a candidate is pushed to from its position in a front. -/
def spot (penalties : List Nat) (rank : Nat) (entry : Nat × Nat) : Placed :=
  ⟨rank + penalties.getD entry.1 0, rank, entry.2, entry.1⟩

def frontSpots (penalties : List Nat) (entry : List Nat × Nat) : List Placed :=
  entry.1.zipIdx.map (spot penalties entry.2)

/-- The places all candidates are pushed to, in the order of the ranking. -/
def spots (ranking : Ranking) (penalties : List Nat) : List Placed :=
  ranking.fronts.zipIdx.flatMap (frontSpots penalties)

def regrouped (ranking : Ranking) (penalties : List Nat) : List (List Nat) :=
  (((ranking.spots penalties).mergeSort fun a b => (a.order b).isLE).splitBy
    fun a b => a.target == b.target).map fun front => front.map (·.candidate)

theorem map_candidate_frontSpots (penalties : List Nat) (entry : List Nat × Nat) :
    (frontSpots penalties entry).map (·.candidate) = entry.1 := by
  rw [frontSpots, List.map_map]
  exact List.zipIdx_map_fst 0 entry.1

/-- The spots hold the candidates in the order of the ranking. -/
theorem map_candidate_spots (ranking : Ranking) (penalties : List Nat) :
    (ranking.spots penalties).map (·.candidate) = ranking.order := by
  simp only [spots, List.map_flatMap, map_candidate_frontSpots, order]
  rw [List.flatMap_def, List.zipIdx_map_fst]

/-- Whatever is placed stands at its rank plus its penalty. -/
theorem placeFront_eq_ok {penalties : List Nat} {entry : List Nat × Nat} {placed : List Placed}
    (h : placeFront penalties entry.2 entry.1 = .ok placed) :
    placed = frontSpots penalties entry := by
  refine eq_map_of_related ((related_of_mapM_eq_ok h).imp fun place found hPlace => ?_)
  obtain ⟨target, hTarget, hFound⟩ := exists_of_bind_eq_ok hPlace
  obtain ⟨-, rfl⟩ := Checked.addCounts_eq_ok_iff.mp hTarget
  cases hFound
  rfl

/-- A front is placed if all of its target ranks fit. -/
theorem placeFront_of_fits {penalties : List Nat} {entry : List Nat × Nat}
    (h : ∀ place ∈ frontSpots penalties entry, place.target < Checked.countLimit) :
    placeFront penalties entry.2 entry.1 = .ok (frontSpots penalties entry) := by
  refine mapM_eq_ok_map fun place hMem => ?_
  have hFits := h _ (List.mem_map_of_mem hMem)
  have hTarget := Checked.addCounts_eq_ok_iff.mpr ⟨hFits, rfl⟩
  exact (congrArg (· >>= _) hTarget).trans (ok_bind _ _)

/-- What is answered are the candidates grouped by their places. -/
theorem regroup_eq_ok {ranking : Ranking} {penalties : List Nat} {fronts : List (List Nat)}
    (h : ranking.regroup penalties = .ok fronts) : fronts = ranking.regrouped penalties := by
  obtain ⟨placed, hPlaced, h⟩ := exists_of_bind_eq_ok h
  cases h
  have hSpots : placed = ranking.fronts.zipIdx.map (frontSpots penalties) :=
    eq_map_of_related ((related_of_mapM_eq_ok hPlaced).imp fun _ _ => placeFront_eq_ok)
  rw [regrouped, spots, List.flatMap_def, ← hSpots]

/-- There is an answer if no place is beyond the counts. -/
theorem regroup_of_fits {ranking : Ranking} {penalties : List Nat}
    (h : ∀ place ∈ ranking.spots penalties, place.target < Checked.countLimit) :
    ranking.regroup penalties = .ok (ranking.regrouped penalties) := by
  have hPlaced : (ranking.fronts.zipIdx.mapM fun entry =>
      placeFront penalties entry.2 entry.1) =
        .ok (ranking.fronts.zipIdx.map (frontSpots penalties)) :=
    mapM_eq_ok_map fun entry hEntry => placeFront_of_fits fun place hPlace =>
      h place (List.mem_flatMap_of_mem hEntry hPlace)
  refine (congrArg (· >>= _) hPlaced).trans ?_
  rw [ok_bind, regrouped, spots, List.flatMap_def]
  rfl

theorem perm_regrouped (ranking : Ranking) (penalties : List Nat) :
    (ranking.regrouped penalties).flatten.Perm ranking.order := by
  rw [regrouped, ← List.map_flatten, List.flatten_splitBy, ← map_candidate_spots ranking penalties]
  exact (List.mergeSort_perm _ _).map _

/-- What can come of a demotion: nothing is pushed back, or the candidates are grouped by their
places. -/
theorem demote_eq_ok {ranking demoted : Ranking} {penalties : List Nat}
    (h : ranking.demote penalties = .ok demoted) :
    demoted = ranking ∨ demoted = ⟨ranking.regrouped penalties, ranking.crowding⟩ := by
  unfold demote at h
  split at h
  · exact .inl (Except.ok.inj h).symm
  · obtain ⟨fronts, hFronts, h⟩ := exists_of_bind_eq_ok h
    rw [regroup_eq_ok hFronts] at h
    exact .inr (Except.ok.inj h).symm

/-- Demotion rearranges the candidates. -/
theorem perm_of_demote {ranking demoted : Ranking} {penalties : List Nat}
    (h : ranking.demote penalties = .ok demoted) :
    demoted.fronts.flatten.Perm ranking.fronts.flatten := by
  rcases demote_eq_ok h with rfl | rfl
  · exact .refl _
  · exact perm_regrouped ranking penalties

/-- A candidate stands at a position in a front. -/
def StandsAt (ranking : Ranking) (candidate rank position : Nat) : Prop :=
  (ranking.front rank)[position]? = some candidate

/-- A spot stands for a candidate at a place of the ranking, with the target that its rank and its
penalty make. -/
theorem mem_spots {ranking : Ranking} {penalties : List Nat} {place : Placed} :
    place ∈ ranking.spots penalties ↔
      place.target = place.rank + penalties.getD place.candidate 0 ∧
        ranking.StandsAt place.candidate place.rank place.position := by
  obtain ⟨target, rank, position, candidate⟩ := place
  simp only [StandsAt, spots, frontSpots, spot, List.mem_flatMap, List.mem_map, Prod.exists,
    List.mem_zipIdx_iff_getElem?, Placed.mk.injEq, front, List.getD_eq_getElem?_getD]
  constructor
  · rintro ⟨front, rank', hFront, candidate', position', hCandidate, rfl, rfl, rfl, rfl⟩
    exact ⟨rfl, by simpa [hFront] using hCandidate⟩
  · rintro ⟨rfl, hCandidate⟩
    cases hFront : ranking.fronts[rank]? with
    | none => simp [hFront] at hCandidate
    | some front =>
        rw [hFront, Option.getD_some] at hCandidate
        exact ⟨front, rank, hFront, candidate, position, hCandidate, rfl, rfl, rfl, rfl⟩

/-- Demotion is possible if no front is pushed beyond the counts. -/
theorem exists_demote {ranking : Ranking} {penalties : List Nat}
    (h : ∀ candidate,
      ranking.fronts.length + penalties.getD candidate 0 < Checked.countLimit) :
    ∃ demoted, ranking.demote penalties = .ok demoted := by
  unfold demote
  split
  · exact ⟨ranking, rfl⟩
  · rw [regroup_of_fits fun place hPlace => ?_]
    · exact ⟨_, rfl⟩
    · obtain ⟨hTarget, hFound⟩ := mem_spots.mp hPlace
      have hRank : place.rank < ranking.fronts.length := by
        by_contra hBeyond
        rw [StandsAt, front, List.getD_eq_getElem?_getD,
          List.getElem?_eq_none (Nat.le_of_not_lt hBeyond)] at hFound
        cases hFound
      have hFronts := h place.candidate
      omega

/-- The candidates that are taken are the first ones in the order of the ranking. As long as no more
were taken than are wanted, what is left to take is never negative. -/
theorem takeFronts_of_le {count : Nat} {selected : List Nat} (h : selected.length ≤ count)
    (fronts : List (List Nat)) :
    takeFronts count selected fronts = .ok ((selected ++ fronts.flatten).take count) := by
  induction fronts generalizing selected with
  | nil =>
      rw [takeFronts, List.flatten_nil, List.append_nil, List.take_of_length_le h]
      rfl
  | cons front rest ih =>
      have hRoom := Checked.subCounts_eq_ok_iff.mpr ⟨h, rfl⟩
      rw [takeFronts, hRoom, ok_bind, List.flatten_cons]
      split
      · rename_i hFull
        rw [List.take_append_of_le_length (Nat.le_of_sub_eq_zero hFull), List.take_of_length_le h]
        rfl
      · split
        · rename_i hFront
          rw [ih (by rw [List.length_append]; omega), List.append_assoc]
        · rename_i hFront
          rw [List.take_append, List.take_of_length_le h,
            List.take_append_of_le_length (Nat.le_of_not_le hFront)]
          rfl

/-- Whole fronts first and then a part of the next one is a prefix of the order. -/
theorem takeFronts_nil (count : Nat) (ranking : Ranking) :
    takeFronts count [] ranking.fronts = .ok (ranking.order.take count) :=
  takeFronts_of_le (Nat.zero_le count) ranking.fronts

/-- Whatever is selected is a prefix of the order. -/
theorem select_eq_ok {ranking : Ranking} {count : Nat} {selected : List Nat}
    (h : ranking.select count = .ok selected) : selected = ranking.order.take count := by
  obtain ⟨_, -, h⟩ := exists_of_bind_eq_ok h
  rw [takeFronts_nil] at h
  exact (Except.ok.inj h).symm

/-- If there is room for the count, the prefix is selected. -/
theorem select_of_room (ranking : Ranking) {count : Nat}
    (h : Checked.wordBytes * count ≤ Checked.listBytes) :
    ranking.select count = .ok (ranking.order.take count) := by
  rw [select, Checked.reserve, if_pos h, ok_bind, takeFronts_nil]

end WitnessSearch.Ranking
