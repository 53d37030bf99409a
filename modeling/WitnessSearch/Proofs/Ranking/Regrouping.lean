import Mathlib.Data.List.Chain
import WitnessSearch.Proofs.Ranking.Demotion
import WitnessSearch.Proofs.Ranking.Exactness

/-! What demotion makes of the fronts. The places of the candidates are sorted and then cut where
the front that they go to changes. No two places have the same origin, so the sorted order is strict
and says where every candidate ends up: candidates share a front exactly if they are pushed to the
same one, and there they stand as they stood before. -/

namespace WitnessSearch

section Groups

variable {α β : Type}

/-- Cutting a list that was made from another is cutting the other. -/
theorem splitBy_map (r : β → β → Bool) (f : α → β) (xs : List α) :
    (xs.map f).splitBy r = (xs.splitBy fun a b => r (f a) (f b)).map (·.map f) := by
  rw [List.splitBy_eq_iff, ← List.map_flatten, List.flatten_splitBy]
  refine ⟨rfl, ?_, ?_, ?_⟩
  · intro hEmpty
    obtain ⟨group, hGroup, hNil⟩ := List.mem_map.mp hEmpty
    exact List.ne_nil_of_mem_splitBy hGroup (List.map_eq_nil_iff.mp hNil)
  · refine List.forall_mem_map.mpr fun group hGroup => ?_
    exact (List.isChain_map f).mpr (List.isChain_of_mem_splitBy hGroup)
  · refine (List.isChain_map _).mpr ((List.isChain_getLast_head_splitBy _ xs).imp ?_)
    rintro group next ⟨hGroup, hNext, hCut⟩
    refine ⟨by simpa using hGroup, by simpa using hNext, ?_⟩
    rwa [List.getLast_map, List.head_map]

variable {key : α → ℕ} {xs : List α}

theorem key_eq_of_mem_splitBy {group : List α}
    (h : group ∈ xs.splitBy fun a b => key a == key b) {a b : α} (ha : a ∈ group)
    (hb : b ∈ group) : key a = key b := by
  have hChain := (List.isChain_map key).mpr
    ((List.isChain_of_mem_splitBy h).imp fun _ _ hSame => beq_iff_eq.mp hSame)
  exact (List.isChain_iff_pairwise.mp hChain).forall_of_forall (fun _ _ => rfl)
    (List.mem_map_of_mem ha) (List.mem_map_of_mem hb)

/-- A list in the order of its keys is cut into groups with growing keys. The induction is on the
groups: the next one begins with a larger key, and those behind it are no smaller. -/
theorem pairwise_splitBy (h : xs.Pairwise fun a b => key a ≤ key b) :
    (xs.splitBy fun a b => key a == key b).Pairwise
      fun group later => ∀ a ∈ group, ∀ b ∈ later, key a < key b := by
  have hSame : ∀ group ∈ xs.splitBy fun a b => key a == key b,
      ∀ a ∈ group, ∀ b ∈ group, key a = key b :=
    fun _ hGroup _ ha _ hb => key_eq_of_mem_splitBy hGroup ha hb
  have hCut := List.isChain_getLast_head_splitBy (fun a b => key a == key b) xs
  rw [← List.flatten_splitBy (fun a b => key a == key b) xs, List.pairwise_flatten] at h
  obtain ⟨-, hOrder⟩ := h
  generalize xs.splitBy _ = groups at hSame hCut hOrder
  induction groups with
  | nil => exact .nil
  | cons group groups ih =>
      obtain ⟨hGroup, hLater⟩ := List.forall_mem_cons.mp hSame
      obtain ⟨hFirst, hRest⟩ := List.pairwise_cons.mp hOrder
      refine List.pairwise_cons.mpr ⟨fun later hMem a ha b hb => ?_, ih hLater hCut.tail hRest⟩
      cases groups with
      | nil => cases hMem
      | cons next groups =>
          obtain ⟨hSome, hNext, hApart⟩ := hCut.rel
          have hLess : key a < key (next.head hNext) := by
            have hAtMost := hFirst next List.mem_cons_self _ (List.getLast_mem hSome) _
              (List.head_mem hNext)
            have hLast := hGroup a ha _ (List.getLast_mem hSome)
            have hDiffer : key (group.getLast hSome) ≠ key (next.head hNext) := by
              simpa using hApart
            omega
          rcases List.mem_cons.mp hMem with rfl | hBehind
          · exact hLess.trans_eq (hLater _ hMem _ (List.head_mem hNext) b hb)
          · exact hLess.trans_le ((List.pairwise_cons.mp hRest).1 later hBehind _
              (List.head_mem hNext) b hb)

end Groups

namespace Ranking

/-- Places are compared by target, then by rank, then by position and at last by candidate. -/
theorem Placed.isLE_order_iff (a b : Placed) :
    (a.order b).isLE = true ↔ a.target < b.target ∨ a.target = b.target ∧ (a.rank < b.rank ∨
      a.rank = b.rank ∧ (a.position < b.position ∨
        a.position = b.position ∧ a.candidate ≤ b.candidate)) := by
  simp only [order, Ordering.isLE_then_iff_or, Nat.compare_eq_lt, Nat.compare_eq_eq,
    Nat.isLE_compare]

/-- One place comes from further ahead in the ranking than another. -/
def Placed.Ahead (a b : Placed) : Prop :=
  a.rank < b.rank ∨ a.rank = b.rank ∧ a.position < b.position

theorem pairwise_zipIdx {α : Type} (xs : List α) : xs.zipIdx.Pairwise fun a b => a.2 < b.2 := by
  rw [← List.pairwise_map, List.zipIdx_map_snd]
  exact List.pairwise_lt_range'

/-- The spots are in the order of rank and position. -/
theorem pairwise_spots (ranking : Ranking) (penalties : List ℕ) :
    (ranking.spots penalties).Pairwise Placed.Ahead := by
  refine List.pairwise_flatMap.mpr ⟨fun entry _ => ?_, (pairwise_zipIdx _).imp ?_⟩
  · exact List.pairwise_map.mpr ((pairwise_zipIdx _).imp fun hLess => .inr ⟨rfl, hLess⟩)
  · intro entry later hLess a ha b hb
    obtain ⟨_, -, rfl⟩ := List.mem_map.mp ha
    obtain ⟨_, -, rfl⟩ := List.mem_map.mp hb
    exact .inl hLess

/-- The places in the order in which they are grouped. -/
def linedUp (ranking : Ranking) (penalties : List ℕ) : List Placed :=
  (ranking.spots penalties).mergeSort fun a b => (a.order b).isLE

def groups (ranking : Ranking) (penalties : List ℕ) : List (List Placed) :=
  (ranking.linedUp penalties).splitBy fun a b => a.target == b.target

/-- The fronts of a regrouping are its groups with the places forgotten. -/
theorem regrouped_eq_map_groups (ranking : Ranking) (penalties : List ℕ) :
    ranking.regrouped penalties =
      (ranking.groups penalties).map fun group => group.map (·.candidate) :=
  rfl

theorem mem_linedUp {ranking : Ranking} {penalties : List ℕ} {place : Placed} :
    place ∈ ranking.linedUp penalties ↔ place ∈ ranking.spots penalties :=
  List.mem_mergeSort

/-- Lined up, the places are in a strict order, since no two of them have the same origin. -/
theorem pairwise_linedUp (ranking : Ranking) (penalties : List ℕ) :
    (ranking.linedUp penalties).Pairwise fun a b =>
      a.target < b.target ∨ a.target = b.target ∧ a.Ahead b := by
  have hSorted : (ranking.linedUp penalties).Pairwise fun a b => (a.order b).isLE = true := by
    refine List.pairwise_mergeSort (fun a b c => ?_) (fun a b => ?_) _
    · simp only [Placed.isLE_order_iff]
      omega
    · simp only [Bool.or_eq_true, Placed.isLE_order_iff]
      omega
  have hApart : (ranking.linedUp penalties).Pairwise fun a b =>
      ¬(a.rank = b.rank ∧ a.position = b.position) := by
    refine ((List.mergeSort_perm _ _).pairwise_iff (fun h => by omega)).mpr ?_
    exact (pairwise_spots ranking penalties).imp fun h => by unfold Placed.Ahead at h; omega
  refine (hSorted.and hApart).imp fun {a b} h => ?_
  rw [Placed.isLE_order_iff] at h
  unfold Placed.Ahead
  omega

/-- The places in the order in which they are grouped stand in the groups one after the other. -/
theorem flatten_groups (ranking : Ranking) (penalties : List ℕ) :
    (ranking.groups penalties).flatten = ranking.linedUp penalties :=
  List.flatten_splitBy _ _

/-- The targets of the groups go up. -/
theorem pairwise_groups (ranking : Ranking) (penalties : List ℕ) :
    (ranking.groups penalties).Pairwise
      fun group later => ∀ a ∈ group, ∀ b ∈ later, a.target < b.target :=
  pairwise_splitBy ((pairwise_linedUp ranking penalties).imp fun h => by omega)

/-- Where two places are among the groups tells where they are pushed to and, within a group, which
of them comes from further ahead. -/
theorem stand_in_groups {ranking : Ranking} {penalties : List ℕ} {a b : Placed} {t i u j : ℕ}
    (ha : ((ranking.groups penalties).getD t [])[i]? = some a)
    (hb : ((ranking.groups penalties).getD u [])[j]? = some b) :
    (t < u → a.target < b.target) ∧ (t = u → a.target = b.target) ∧
      (t = u → i < j → a.Ahead b) := by
  obtain ⟨group, hGroup, hMember⟩ := exists_of_getElem?_getD ha
  obtain ⟨later, hLater, hBehind⟩ := exists_of_getElem?_getD hb
  obtain ⟨hFirst, rfl⟩ := List.getElem?_eq_some_iff.mp hGroup
  obtain ⟨hSecond, rfl⟩ := List.getElem?_eq_some_iff.mp hLater
  have hA := List.mem_of_getElem? hMember
  have hSame : t = u → a.target = b.target := by
    rintro rfl
    exact key_eq_of_mem_splitBy (List.getElem_mem hFirst) hA (List.mem_of_getElem? hBehind)
  refine ⟨fun hLess => ?_, hSame, ?_⟩
  · exact List.pairwise_iff_getElem.mp (pairwise_groups ranking penalties) t u hFirst hSecond hLess
      a hA b (List.mem_of_getElem? hBehind)
  · rintro rfl hLess
    have hLined := pairwise_linedUp ranking penalties
    rw [← flatten_groups, List.pairwise_flatten] at hLined
    obtain ⟨hI, rfl⟩ := List.getElem?_eq_some_iff.mp hMember
    obtain ⟨hJ, rfl⟩ := List.getElem?_eq_some_iff.mp hBehind
    have hStrict := List.pairwise_iff_getElem.mp (hLined.1 _ (List.getElem_mem hFirst)) i j hI hJ
      hLess
    exact (hStrict.resolve_left (hSame rfl).not_lt).2

/-- No candidate has two places in a ranking that has each candidate once. -/
theorem StandsAt.unique {ranking : Ranking} {candidate r p s q : ℕ} (hOnce : ranking.order.Nodup)
    (h : ranking.StandsAt candidate r p) (h' : ranking.StandsAt candidate s q) :
    r = s ∧ p = q := by
  rw [← map_candidate_spots ranking []] at hOnce
  have hFirst : (⟨r + 0, r, p, candidate⟩ : Placed) ∈ ranking.spots [] := mem_spots.mpr ⟨rfl, h⟩
  have hSecond : (⟨s + 0, s, q, candidate⟩ : Placed) ∈ ranking.spots [] := mem_spots.mpr ⟨rfl, h'⟩
  have hSame := List.inj_on_of_nodup_map hOnce hFirst hSecond rfl
  exact ⟨congrArg Placed.rank hSame, congrArg Placed.position hSame⟩

/-- A candidate of the new fronts has its place in one of the groups, and that place tells where the
candidate stood before. -/
theorem exists_place {ranking : Ranking} {penalties : List ℕ} {crowding : Crowding.Distances}
    {candidate r p t i : ℕ} (hOnce : ranking.order.Nodup) (hOld : ranking.StandsAt candidate r p)
    (hNew : StandsAt ⟨ranking.regrouped penalties, crowding⟩ candidate t i) :
    ((ranking.groups penalties).getD t [])[i]? =
      some ⟨r + penalties.getD candidate 0, r, p, candidate⟩ := by
  obtain ⟨front, hFront, hCandidate⟩ := exists_of_getElem?_getD hNew
  rw [regrouped_eq_map_groups, List.getElem?_map, Option.map_eq_some_iff] at hFront
  obtain ⟨group, hGroup, rfl⟩ := hFront
  rw [List.getElem?_map, Option.map_eq_some_iff] at hCandidate
  obtain ⟨place, hPlace, rfl⟩ := hCandidate
  rw [List.getD_eq_getElem?_getD, hGroup, Option.getD_some, hPlace]
  have hMem := List.mem_flatten_of_mem (List.mem_of_getElem? hGroup) (List.mem_of_getElem? hPlace)
  rw [flatten_groups, mem_linedUp] at hMem
  obtain ⟨hTarget, hStands⟩ := mem_spots.mp hMem
  obtain ⟨rfl, rfl⟩ := hStands.unique hOnce hOld
  rw [← hTarget]

/-- The order among the new fronts is that of the fronts which the candidates are pushed to, and the
order within them is the one from before. -/
theorem regrouped_order {ranking : Ranking} {penalties : List ℕ} {crowding : Crowding.Distances}
    (hOnce : ranking.order.Nodup) {a r p b s q : ℕ} (ha : ranking.StandsAt a r p)
    (hb : ranking.StandsAt b s q) {t i u j : ℕ}
    (hA : StandsAt ⟨ranking.regrouped penalties, crowding⟩ a t i)
    (hB : StandsAt ⟨ranking.regrouped penalties, crowding⟩ b u j) :
    (t = u ↔ r + penalties.getD a 0 = s + penalties.getD b 0) ∧
      (t < u ↔ r + penalties.getD a 0 < s + penalties.getD b 0) ∧
      (t = u → (i < j ↔ r < s ∨ r = s ∧ p < q)) := by
  have hFirst := exists_place hOnce ha hA
  have hSecond := exists_place hOnce hb hB
  obtain ⟨hLess, hSame, hAhead⟩ := stand_in_groups hFirst hSecond
  obtain ⟨hGreater, -, hBehind⟩ := stand_in_groups hSecond hFirst
  have hOne : t = u → i = j → r = s ∧ p = q := by
    rintro rfl rfl
    have hPlaces := Option.some.inj (hFirst.symm.trans hSecond)
    exact ⟨congrArg Placed.rank hPlaces, congrArg Placed.position hPlaces⟩
  simp only [Placed.Ahead] at hLess hSame hAhead hGreater hBehind
  refine ⟨⟨hSame, fun h => ?_⟩, ⟨hLess, fun h => ?_⟩, fun hFront => ⟨hAhead hFront, fun h => ?_⟩⟩
  · omega
  · omega
  · have hBehind := hBehind hFront.symm
    have hOne := hOne hFront
    omega

section NoPenalty

variable {ranking : Ranking} {penalties : List ℕ}
  (hNone : ∀ candidate, penalties.getD candidate 0 = 0)

include hNone

theorem target_of_no_penalty {entry : List ℕ × ℕ} {place : Placed}
    (h : place ∈ frontSpots penalties entry) : place.target = entry.2 := by
  obtain ⟨_, -, rfl⟩ := List.mem_map.mp h
  rw [spot, hNone, Nat.add_zero]

/-- Without penalties the places are in order as they come. -/
theorem linedUp_of_no_penalty : ranking.linedUp penalties = ranking.spots penalties := by
  have hTarget : ∀ place ∈ ranking.spots penalties, place.target = place.rank := by
    intro place hPlace
    rw [(mem_spots.mp hPlace).1, hNone, Nat.add_zero]
  refine List.mergeSort_of_pairwise ((pairwise_spots ranking penalties).imp_of_mem ?_)
  intro a b ha hb hAhead
  rw [Placed.isLE_order_iff, hTarget a ha, hTarget b hb]
  unfold Placed.Ahead at hAhead
  omega

/-- Without a penalty the groups are the fronts that were there. -/
theorem groups_of_no_penalty (hSome : ∀ front ∈ ranking.fronts, front ≠ []) :
    ranking.groups penalties = ranking.fronts.zipIdx.map (frontSpots penalties) := by
  have hFull : ∀ entry ∈ ranking.fronts.zipIdx, frontSpots penalties entry ≠ [] := by
    intro entry hEntry hEmpty
    rw [← List.map_eq_nil_iff (f := Placed.candidate), map_candidate_frontSpots] at hEmpty
    refine hSome entry.1 ?_ hEmpty
    rw [← List.zipIdx_map_fst 0 ranking.fronts]
    exact List.mem_map_of_mem hEntry
  rw [groups, linedUp_of_no_penalty hNone, spots, List.flatMap_def]
  refine List.splitBy_flatten ?_ (List.forall_mem_map.mpr fun entry _ => ?_) ?_
  · rw [List.mem_map]
    rintro ⟨entry, hEntry, hEmpty⟩
    exact hFull entry hEntry hEmpty
  · refine (List.pairwise_of_forall_mem_list fun a ha b hb => ?_).isChain
    rw [target_of_no_penalty hNone ha, target_of_no_penalty hNone hb, beq_self_eq_true]
  · refine (List.isChain_map _).mpr
      ((pairwise_zipIdx ranking.fronts).imp_of_mem fun ha hb hLess => ?_).isChain
    refine ⟨hFull _ ha, hFull _ hb, ?_⟩
    rw [target_of_no_penalty hNone (List.getLast_mem _),
      target_of_no_penalty hNone (List.head_mem _)]
    exact beq_eq_false_iff_ne.mpr hLess.ne

/-- Without penalties the fronts are what they were. -/
theorem regrouped_of_no_penalty (hSome : ∀ front ∈ ranking.fronts, front ≠ []) :
    ranking.regrouped penalties = ranking.fronts := by
  rw [regrouped_eq_map_groups, groups_of_no_penalty hNone hSome, List.map_map]
  conv_rhs => rw [← List.zipIdx_map_fst 0 ranking.fronts]
  exact List.map_congr_left fun entry _ => map_candidate_frontSpots penalties entry

end NoPenalty

def Placed.push (shift : ℕ) (place : Placed) : Placed :=
  { place with target := place.target + shift }

section Shift

variable {ranking : Ranking} {penalties shifted : List ℕ} {shift : ℕ}
  (h : ∀ candidate ∈ ranking.order,
    shifted.getD candidate 0 = penalties.getD candidate 0 + shift)

include h

/-- Penalties that are shifted push every spot by the same amount. -/
theorem spots_of_shift :
    ranking.spots shifted = (ranking.spots penalties).map (Placed.push shift) := by
  rw [spots, spots, List.map_flatMap]
  refine List.flatMap_congr fun entry hEntry => ?_
  rw [frontSpots, frontSpots, List.map_map]
  refine List.map_congr_left fun place hPlace => ?_
  have hMem : place.1 ∈ ranking.order := by
    have hFront := List.mem_of_getElem? (List.mem_zipIdx_iff_getElem?.mp hEntry)
    exact List.mem_flatten_of_mem hFront
      (List.mem_of_getElem? (List.mem_zipIdx_iff_getElem?.mp hPlace))
  simp only [spot, Function.comp_apply, Placed.push, h _ hMem, Nat.add_assoc]

/-- The same shift for all places keeps their order and where they are cut. -/
theorem groups_of_shift :
    ranking.groups shifted =
      (ranking.groups penalties).map fun group => group.map (Placed.push shift) := by
  have hLined : ranking.linedUp shifted = (ranking.linedUp penalties).map (Placed.push shift) := by
    rw [linedUp, linedUp, spots_of_shift h]
    refine (List.map_mergeSort fun a _ b _ => ?_).symm
    rw [Bool.eq_iff_iff, Placed.isLE_order_iff, Placed.isLE_order_iff]
    simp only [Placed.push]
    omega
  have hCut : (fun a b : Placed => (a.push shift).target == (b.push shift).target) =
      fun a b => a.target == b.target := by
    funext a b
    simp [Placed.push]
  rw [groups, hLined, splitBy_map, hCut, groups]

/-- Pushing all candidates back by as many fronts more makes no difference. -/
theorem regrouped_of_shift : ranking.regrouped shifted = ranking.regrouped penalties := by
  rw [regrouped_eq_map_groups, regrouped_eq_map_groups, groups_of_shift h, List.map_map]
  refine List.map_congr_left fun group _ => ?_
  rw [Function.comp_apply, List.map_map]
  rfl

end Shift

def Fits (ranking : Ranking) (penalties : List ℕ) : Prop :=
  ∀ candidate rank position, ranking.StandsAt candidate rank position →
    rank + penalties.getD candidate 0 < Checked.countLimit

/-- Penalties fit if no target rank is too large for a count. -/
theorem fits_iff {ranking : Ranking} {penalties : List ℕ} :
    ranking.Fits penalties ↔
      ∀ place ∈ ranking.spots penalties, place.target < Checked.countLimit := by
  constructor
  · intro h place hPlace
    obtain ⟨hTarget, hStands⟩ := mem_spots.mp hPlace
    exact hTarget ▸ h _ _ _ hStands
  · intro h candidate rank position hStands
    exact h ⟨rank + penalties.getD candidate 0, rank, position, candidate⟩
      (mem_spots.mpr ⟨rfl, hStands⟩)

/-- Whether there are penalties or not, demotion leaves the candidates grouped by their places. -/
theorem demote_of_fits {ranking : Ranking} {penalties : List ℕ}
    (hSome : ∀ front ∈ ranking.fronts, front ≠ []) (hFits : ranking.Fits penalties) :
    ranking.demote penalties = .ok ⟨ranking.regrouped penalties, ranking.crowding⟩ := by
  unfold demote
  split
  · rename_i hAll
    have hNone : ∀ candidate, penalties.getD candidate 0 = 0 := by
      intro candidate
      rw [List.getD_eq_getElem?_getD]
      cases hFound : penalties[candidate]? with
      | none => rfl
      | some penalty =>
          simpa using List.all_eq_true.mp hAll penalty (List.mem_of_getElem? hFound)
    rw [regrouped_of_no_penalty hNone hSome]
    rfl
  · rw [regroup_of_fits (fits_iff.mp hFits)]
    rfl

/-- The rankings of rows, with their candidates pushed back any number of times. -/
inductive Arises (preference : Bool) (rows : List (List Float)) : Ranking → Prop where
  | ranked {ranking : Ranking} (h : ofRows preference rows = .ok ranking) :
      Arises preference rows ranking
  | demoted {ranking demoted : Ranking} {penalties : List ℕ}
      (prior : Arises preference rows ranking) (h : ranking.demote penalties = .ok demoted) :
      Arises preference rows demoted

theorem Parts.regrouped {count : ℕ} {ranking : Ranking} (h : Parts count ranking.fronts)
    (penalties : List ℕ) : Parts count (ranking.regrouped penalties) where
  partition := (perm_regrouped ranking penalties).trans h.partition
  nonempty := by
    rw [regrouped_eq_map_groups]
    refine List.forall_mem_map.mpr fun group hGroup hEmpty => ?_
    exact List.ne_nil_of_mem_splitBy hGroup (List.map_eq_nil_iff.mp hEmpty)

theorem Parts.demote {count : ℕ} {ranking demoted : Ranking} {penalties : List ℕ}
    (hParts : Parts count ranking.fronts) (h : ranking.demote penalties = .ok demoted) :
    Parts count demoted.fronts := by
  rcases demote_eq_ok h with rfl | rfl
  · exact hParts
  · exact hParts.regrouped penalties

/-- Every ranking that arises from numeric rows by demotions is a partition of them. -/
theorem Arises.parts {preference : Bool} {rows : List (List Float)} {ranking : Ranking}
    (h : Arises preference rows ranking) (hNumeric : ∀ row ∈ rows, IsNumeric row) :
    Parts rows.length ranking.fronts := by
  induction h with
  | ranked h => exact parts_of_ofRows h hNumeric
  | demoted _ h ih => exact ih.demote h

/-- Demotion, for a ranking of rows of numbers whose candidates may have been pushed back before. If
no candidate goes beyond the counts there is an answer. Whether there are penalties or not, it has
the fronts that the places make up, all of the candidates and no empty front, and the distances
stay. Two candidates share a front exactly if they are pushed to the same one, fronts stand in the
order of those which their members are pushed to, and within a front the order is the one from
before. If all penalties grow by the same number then the answer is the same. -/
theorem demote_regroups {preference : Bool} {rows : List (List Float)} {ranking : Ranking}
    (hRanking : Arises preference rows ranking) (hNumeric : ∀ row ∈ rows, IsNumeric row)
    {penalties : List ℕ} (hFits : ranking.Fits penalties) :
    ∃ demoted, ranking.demote penalties = .ok demoted ∧
      ranking.regroup penalties = .ok demoted.fronts ∧
      demoted.order.Perm (List.range rows.length) ∧
      (∀ front ∈ demoted.fronts, front ≠ []) ∧
      demoted.crowding = ranking.crowding ∧
      (∀ a r p, ranking.StandsAt a r p → ∀ b s q, ranking.StandsAt b s q →
        ∀ t i, demoted.StandsAt a t i → ∀ u j, demoted.StandsAt b u j →
          (t = u ↔ r + penalties.getD a 0 = s + penalties.getD b 0) ∧
          (t < u ↔ r + penalties.getD a 0 < s + penalties.getD b 0) ∧
          (t = u → (i < j ↔ r < s ∨ r = s ∧ p < q))) ∧
      ∀ shift shifted, ranking.Fits shifted →
        (∀ candidate, candidate < rows.length →
          shifted.getD candidate 0 = penalties.getD candidate 0 + shift) →
        ranking.demote shifted = .ok demoted := by
  have hParts := hRanking.parts hNumeric
  have hNext := hParts.regrouped penalties
  have hOnce : ranking.order.Nodup := hParts.partition.nodup_iff.mpr List.nodup_range
  refine ⟨⟨ranking.regrouped penalties, ranking.crowding⟩, demote_of_fits hParts.nonempty hFits,
    regroup_of_fits (fits_iff.mp hFits), hNext.partition, hNext.nonempty, rfl, ?_, ?_⟩
  · intro a r p ha b s q hb t i hA u j hB
    exact regrouped_order hOnce ha hb hA hB
  · intro shift shifted hShiftedFits hShift
    rw [demote_of_fits hParts.nonempty hShiftedFits, regrouped_of_shift fun candidate hMem =>
      hShift candidate (List.mem_range.mp (hParts.partition.subset hMem))]

theorem isNumeric_of_mem_crossedRows : ∀ row ∈ crossedRows, IsNumeric row := by
  unfold IsNumeric
  decide

theorem exists_crossed :
    ∃ ranking, ofRows true crossedRows = .ok ranking ∧
      ranking.fronts = [[0, 2], [1, 4], [3]] := by
  have hRun : (match ofRows true crossedRows with
      | .ok ranking => decide (ranking.fronts = [[0, 2], [1, 4], [3]])
      | .error _ => false) = true := by
    decide +kernel
  split at hRun
  · rename_i ranking hRanking
    exact ⟨ranking, hRanking, of_decide_eq_true hRun⟩
  · cases hRun

/-- The first candidate is pushed into a front with the last, and then nothing is pushed. -/
theorem demote_regroups_crossed :
    ∃ ranking, Arises true crossedRows ranking ∧ (∀ row ∈ crossedRows, IsNumeric row) ∧
      ranking.Fits [2] ∧ ∃ demoted, ranking.demote [2] = .ok demoted ∧
        demoted.fronts = [[2], [1, 4], [0, 3]] ∧ demoted.crowding = ranking.crowding ∧
        demoted.Fits [0, 0] ∧ ∃ final, demoted.demote [0, 0] = .ok final ∧
          final.fronts = [[2], [1, 4], [0, 3]] := by
  have hNumeric := isNumeric_of_mem_crossedRows
  obtain ⟨ranking, hRanking, hFronts⟩ := exists_crossed
  have hFits : ranking.Fits [2] := by
    rw [fits_iff, spots, hFronts]
    decide
  obtain ⟨demoted, hDemoted, hGroups, -, -, hCrowding, -⟩ :=
    demote_regroups (.ranked hRanking) hNumeric hFits
  have hNext : demoted.fronts = [[2], [1, 4], [0, 3]] := by
    rw [regroup_eq_ok hGroups, regrouped, spots, hFronts]
    simp +decide [frontSpots, spot, List.mergeSort, List.splitBy, List.splitBy.loop]
  have hFitsAgain : demoted.Fits [0, 0] := by
    rw [fits_iff, spots, hNext]
    decide
  obtain ⟨final, hFinal, hSame, -⟩ :=
    demote_regroups (.demoted (.ranked hRanking) hDemoted) hNumeric hFitsAgain
  refine ⟨ranking, .ranked hRanking, hNumeric, hFits, demoted, hDemoted, hNext, hCrowding,
    hFitsAgain, final, hFinal, ?_⟩
  rw [regroup_eq_ok hSame, regrouped, spots, hNext]
  simp +decide [frontSpots, spot, List.mergeSort, List.splitBy, List.splitBy.loop]

end Ranking

end WitnessSearch
