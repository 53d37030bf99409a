import Mathlib.Data.Finset.Card
import Mathlib.Data.Nat.Count
import WitnessSearch.Ranking.Fronts

/-! Sorting into fronts by counting is peeling: taking from a pool, again and again, everything that
nothing in the rest of the pool dominates. The sort counts for each row the dominators that are not
yet in a front, so a count reaches zero in the round in which peeling takes the row. Nothing is
asked of the rows, not even that their entries are numbers. -/

namespace WitnessSearch.Fronts

/-- The fronts are what peeling takes from a pool of which a part is done. What is left in the end
has a dominator each among what is left. -/
def Peels (dominator : ℕ → ℕ → Prop) (pool : ℕ → Prop) : List ℕ → List (List ℕ) → Prop
  | done, [] => ∀ b, pool b → b ∉ done → ∃ a, pool a ∧ a ∉ done ∧ dominator a b
  | done, front :: rest =>
    front ≠ [] ∧ front.Pairwise (· < ·) ∧
      (∀ b, b ∈ front ↔
        pool b ∧ b ∉ done ∧ ∀ a, pool a → a ∉ done → ¬dominator a b) ∧
      Peels dominator pool (done ++ front) rest

section Counting

variable (rows : Rows)

def Beats (a b : ℕ) : Prop :=
  dominates (rows.getD a []) (rows.getD b []) = true

instance : DecidableRel (Beats rows) :=
  fun _ _ => inferInstanceAs (Decidable (_ = true))

/-- The dominators of a position that are not done. -/
def waiting (done : List ℕ) (b : ℕ) : Finset ℕ :=
  (Finset.range rows.size).filter fun a => Beats rows a b ∧ a ∉ done

variable {rows}

/-- A row waits for those that beat it and were not peeled. -/
theorem mem_waiting {done : List ℕ} {a b : ℕ} :
    a ∈ waiting rows done b ↔ a < rows.size ∧ Beats rows a b ∧ a ∉ done := by
  simp [waiting]

/-- When one row is peeled, the others wait for one less. -/
theorem waiting_append_singleton (done : List ℕ) (a b : ℕ) :
    waiting rows (done ++ [a]) b = (waiting rows done b).erase a := by
  ext c
  simp only [mem_waiting, Finset.mem_erase, List.mem_append, List.mem_singleton]
  tauto

/-- A row waits for none exactly if nothing beats it that was not peeled. -/
theorem waiting_eq_empty {done : List ℕ} {b : ℕ} :
    waiting rows done b = ∅ ↔ ∀ a, a < rows.size → a ∉ done → ¬Beats rows a b := by
  rw [Finset.eq_empty_iff_forall_notMem]
  constructor
  · intro h a ha hDone hBeats
    exact h a (mem_waiting.mpr ⟨ha, hBeats, hDone⟩)
  · intro h a hMem
    obtain ⟨ha, hBeats, hDone⟩ := mem_waiting.mp hMem
    exact h a ha hDone hBeats

theorem waiting_append_eq_empty {done more : List ℕ} {b : ℕ} (h : waiting rows done b = ∅) :
    waiting rows (done ++ more) b = ∅ := by
  rw [waiting_eq_empty] at h ⊢
  intro a ha hDone
  exact h a ha fun hMem => hDone (List.mem_append_left more hMem)

theorem mem_dominatedBy {a b : ℕ} : b ∈ dominatedBy rows a ↔ b < rows.size ∧ Beats rows a b := by
  simp [dominatedBy, Beats]

theorem nodup_dominatedBy (a : ℕ) : (dominatedBy rows a).Nodup :=
  List.nodup_range.filter _

/-- The count of a row is the number it waits for at the start. -/
theorem dominatorCount_eq_card (b : ℕ) :
    dominatorCount rows b = (waiting rows [] b).card := by
  have hCount := Nat.count_eq_card_filter_range (fun a => Beats rows a b) rows.size
  simp only [waiting, List.not_mem_nil, not_false_eq_true, and_true]
  rw [← hCount]
  simp [dominatorCount, Nat.count, Beats]

/-- Releasing a row that waits for some takes one from its count. -/
theorem release_eq {counts : Counts} {b : ℕ} (h : 0 < counts.outstanding.getD b 0) :
    release counts b = .ok {
      outstanding := counts.outstanding.setIfInBounds b (counts.outstanding.getD b 0 - 1)
      freed := if counts.outstanding.getD b 0 - 1 = 0 then b :: counts.freed
        else counts.freed } := by
  have hSub : Checked.subCounts (counts.outstanding.getD b 0) 1 =
      .ok (counts.outstanding.getD b 0 - 1) := by
    rw [Checked.subCounts, if_pos (Nat.succ_le_of_lt h)]
  simp only [release, hSub]
  rfl

/-- The counts are right for what is done, and the freed positions are those that ran out of
dominators since the part `before` was done. What is done may differ from position to position,
since the counts are changed one after another. -/
structure Tallied (rows : Rows) (before : List ℕ) (done : ℕ → List ℕ) (counts : Counts) : Prop where
  size : counts.outstanding.size = rows.size
  outstanding : ∀ b, b < rows.size →
    counts.outstanding.getD b 0 = (waiting rows (done b) b).card
  freed : ∀ b, b ∈ counts.freed ↔
    b < rows.size ∧ (waiting rows before b).Nonempty ∧ waiting rows (done b) b = ∅
  nodup : counts.freed.Nodup

theorem Tallied.congr {before : List ℕ} {done done' : ℕ → List ℕ} {counts : Counts}
    (h : Tallied rows before done counts)
    (hSame : ∀ b, b < rows.size → waiting rows (done b) b = waiting rows (done' b) b) :
    Tallied rows before done' counts where
  size := h.size
  outstanding b hb := by rw [h.outstanding b hb, hSame b hb]
  freed b := by
    rw [h.freed b]
    exact and_congr_right fun hb => by rw [hSame b hb]
  nodup := h.nodup

/-- Taking one dominator off the count of one position. -/
theorem Tallied.release {before : List ℕ} {done : ℕ → List ℕ} {counts : Counts}
    (h : Tallied rows before done counts) {a b : ℕ} (hb : b < rows.size)
    (hBefore : a ∈ waiting rows before b) (hMem : a ∈ waiting rows (done b) b) :
    ∃ after, release counts b = .ok after ∧
      Tallied rows before (Function.update done b (done b ++ [a])) after := by
  have hCount : counts.outstanding.getD b 0 = (waiting rows (done b) b).card :=
    h.outstanding b hb
  have hPositive : 0 < (waiting rows (done b) b).card := Finset.card_pos.mpr ⟨a, hMem⟩
  have hCard : (waiting rows (done b ++ [a]) b).card = (waiting rows (done b) b).card - 1 := by
    rw [waiting_append_singleton, Finset.card_erase_of_mem hMem]
  have hFresh : b ∉ counts.freed := by
    rw [h.freed b]
    rintro ⟨-, -, hEmpty⟩
    rw [hEmpty] at hMem
    exact Finset.notMem_empty a hMem
  refine ⟨_, release_eq (hCount ▸ hPositive), ?_, ?_, ?_, ?_⟩
  · simpa using h.size
  · intro c hc
    by_cases hSame : c = b
    · subst hSame
      simp [h.size, hc, hCount, hCard]
    · have hOther : Function.update done b (done b ++ [a]) c = done c :=
        Function.update_of_ne hSame _ _
      rw [hOther, ← h.outstanding c hc]
      simp [Ne.symm hSame]
  · intro c
    by_cases hSame : c = b
    · subst hSame
      have hEmpty : waiting rows (done c ++ [a]) c = ∅ ↔ counts.outstanding.getD c 0 - 1 = 0 := by
        rw [← Finset.card_eq_zero, hCard, hCount]
      have hStart : (waiting rows before c).Nonempty := ⟨a, hBefore⟩
      simp only [Function.update_self, hEmpty]
      split
      · rename_i hZero
        exact ⟨fun _ => ⟨hb, hStart, hZero⟩, fun _ => List.mem_cons_self⟩
      · rename_i hLeft
        exact ⟨fun hEarlier => absurd hEarlier hFresh, fun hEnd => absurd hEnd.2.2 hLeft⟩
    · have hOther : Function.update done b (done b ++ [a]) c = done c :=
        Function.update_of_ne hSame _ _
      rw [hOther, ← h.freed c]
      split <;> simp [hSame]
  · split
    · exact List.nodup_cons.mpr ⟨hFresh, h.nodup⟩
    · exact h.nodup

/-- Taking one dominator off the counts of several positions. -/
theorem Tallied.releaseAll {before : List ℕ} {done : ℕ → List ℕ} {counts : Counts}
    (h : Tallied rows before done counts) {a : ℕ} {positions : List ℕ}
    (hNodup : positions.Nodup) (hSize : ∀ b ∈ positions, b < rows.size)
    (hBefore : ∀ b ∈ positions, a ∈ waiting rows before b)
    (hMem : ∀ b ∈ positions, a ∈ waiting rows (done b) b) :
    ∃ after, positions.foldlM Fronts.release counts = .ok after ∧
      Tallied rows before (fun b => if b ∈ positions then done b ++ [a] else done b) after := by
  induction positions generalizing done counts with
  | nil => exact ⟨counts, rfl, by simpa using h⟩
  | cons b positions ih =>
      obtain ⟨hNew, hRest⟩ := List.nodup_cons.mp hNodup
      obtain ⟨middle, hMiddle, hTally⟩ := h.release (hSize b List.mem_cons_self)
        (hBefore b List.mem_cons_self) (hMem b List.mem_cons_self)
      have hLater : ∀ c ∈ positions, a ∈ waiting rows
          (Function.update done b (done b ++ [a]) c) c := by
        intro c hc
        have hOther : c ≠ b := by
          rintro rfl
          exact hNew hc
        rw [Function.update_of_ne hOther]
        exact hMem c (List.mem_cons_of_mem b hc)
      obtain ⟨after, hAfter, hFinal⟩ := ih hTally hRest
        (fun c hc => hSize c (List.mem_cons_of_mem b hc))
        (fun c hc => hBefore c (List.mem_cons_of_mem b hc)) hLater
      refine ⟨after, ?_, hFinal.congr ?_⟩
      · rw [List.foldlM_cons, hMiddle]
        exact hAfter
      · intro c _
        by_cases hSame : c = b
        · subst hSame
          simp [hNew]
        · simp [hSame]

/-- Putting one position into a front. Every position that it beats waits for one less, and is freed
if it waits for none. -/
theorem Tallied.releaseRow {before done : List ℕ} {counts : Counts}
    (h : Tallied rows before (fun _ => done) counts) {a : ℕ} (ha : a < rows.size)
    (hBefore : a ∉ before) (hDone : a ∉ done) :
    ∃ after, (dominatedBy rows a).foldlM Fronts.release counts = .ok after ∧
      Tallied rows before (fun _ => done ++ [a]) after := by
  have hWaits : ∀ {earlier : List ℕ}, a ∉ earlier → ∀ b ∈ dominatedBy rows a,
      a ∈ waiting rows earlier b :=
    fun hNew b hb => mem_waiting.mpr ⟨ha, (mem_dominatedBy.mp hb).2, hNew⟩
  obtain ⟨after, hAfter, hTally⟩ := h.releaseAll (nodup_dominatedBy a)
    (fun b hb => (mem_dominatedBy.mp hb).1) (hWaits hBefore) (hWaits hDone)
  refine ⟨after, hAfter, hTally.congr ?_⟩
  intro b hb
  split
  · rfl
  · rename_i hApart
    have hIdle : a ∉ waiting rows done b := by
      intro hMem
      exact hApart (mem_dominatedBy.mpr ⟨hb, (mem_waiting.mp hMem).2.1⟩)
    rw [waiting_append_singleton, Finset.erase_eq_of_notMem hIdle]

/-- Putting a whole front away, one position after another. A position is freed if it was waiting
when the front began and waits for none at the end of it. -/
theorem Tallied.releaseFront {dominated : Array (List ℕ)}
    (hDominated : ∀ a, a < rows.size → dominated.getD a [] = dominatedBy rows a)
    {before done : List ℕ} {counts : Counts}
    (h : Tallied rows before (fun _ => done) counts) {front : List ℕ} (hNodup : front.Nodup)
    (hSize : ∀ a ∈ front, a < rows.size) (hBefore : ∀ a ∈ front, a ∉ before)
    (hDone : ∀ a ∈ front, a ∉ done) :
    ∃ after, front.foldlM
        (fun counts a => (dominated.getD a []).foldlM Fronts.release counts) counts = .ok after ∧
      Tallied rows before (fun _ => done ++ front) after := by
  induction front generalizing done counts with
  | nil => exact ⟨counts, rfl, by simpa using h⟩
  | cons a front ih =>
      obtain ⟨hNew, hRest⟩ := List.nodup_cons.mp hNodup
      obtain ⟨middle, hMiddle, hTally⟩ := h.releaseRow (hSize a List.mem_cons_self)
        (hBefore a List.mem_cons_self) (hDone a List.mem_cons_self)
      have hLater : ∀ c ∈ front, c ∉ done ++ [a] := by
        intro c hc hMem
        rcases List.mem_append.mp hMem with hEarlier | hSame
        · exact hDone c (List.mem_cons_of_mem a hc) hEarlier
        · rw [List.mem_singleton.mp hSame] at hc
          exact hNew hc
      obtain ⟨after, hAfter, hFinal⟩ := ih hTally hRest
        (fun c hc => hSize c (List.mem_cons_of_mem a hc))
        (fun c hc => hBefore c (List.mem_cons_of_mem a hc)) hLater
      refine ⟨after, ?_, by simpa using hFinal⟩
      rw [List.foldlM_cons, hDominated a (hSize a List.mem_cons_self), hMiddle]
      exact hAfter

/-- Where the sort stands before a round. The rows of the earlier fronts are done, and so are all
dominators of theirs. -/
structure Poised (rows : Rows) (done : List ℕ) (outstanding : Array ℕ) (front : List ℕ) :
    Prop where
  tallied : Tallied rows done (fun _ => done) ⟨outstanding, []⟩
  closed : ∀ b ∈ done, waiting rows done b = ∅
  ascending : front.Pairwise (· < ·)
  front : ∀ b, b ∈ front ↔ b < rows.size ∧ b ∉ done ∧ waiting rows done b = ∅

/-- Counts of what each row waits for are a tally with nothing released. -/
theorem tallied_start {done : List ℕ} {outstanding : Array ℕ}
    (hSize : outstanding.size = rows.size)
    (hCount : ∀ b, b < rows.size → outstanding.getD b 0 = (waiting rows done b).card) :
    Tallied rows done (fun _ => done) ⟨outstanding, []⟩ where
  size := hSize
  outstanding := hCount
  freed b := by
    constructor
    · intro hMem
      cases hMem
    · rintro ⟨-, hSome, hNone⟩
      rw [hNone] at hSome
      exact absurd hSome Finset.not_nonempty_empty
  nodup := List.nodup_nil

theorem pairwise_lt_mergeSort {positions : List ℕ} (h : positions.Nodup) :
    (positions.mergeSort (· ≤ ·)).Pairwise (· < ·) := by
  have hTrans : ∀ a b c : ℕ, decide (a ≤ b) = true → decide (b ≤ c) = true →
      decide (a ≤ c) = true := by
    simpa using fun a b c => Nat.le_trans
  have hTotal : ∀ a b : ℕ, (decide (a ≤ b) || decide (b ≤ a)) = true := by
    simpa using Nat.le_total
  have hSorted : (positions.mergeSort (· ≤ ·)).Pairwise (· ≤ ·) := by
    simpa using List.pairwise_mergeSort hTrans hTotal positions
  have hNodup : (positions.mergeSort (· ≤ ·)).Nodup :=
    (List.mergeSort_perm positions _).nodup_iff.mpr h
  exact hSorted.imp₂ (fun a b hLe hNe => Nat.lt_of_le_of_ne hLe hNe) hNodup

/-- One round. The freed positions are the next front. -/
theorem Poised.round {done front : List ℕ} {outstanding : Array ℕ} {dominated : Array (List ℕ)}
    (h : Poised rows done outstanding front)
    (hDominated : ∀ a, a < rows.size → dominated.getD a [] = dominatedBy rows a) :
    ∃ counts, releaseFront dominated outstanding front = .ok counts ∧
      Poised rows (done ++ front) counts.outstanding (counts.freed.mergeSort (· ≤ ·)) := by
  have hNotDone : ∀ a ∈ front, a ∉ done := fun a ha => ((h.front a).mp ha).2.1
  obtain ⟨counts, hCounts, hTally⟩ := h.tallied.releaseFront hDominated
    (h.ascending.imp Nat.ne_of_lt) (fun a ha => ((h.front a).mp ha).1) hNotDone hNotDone
  have hClosed : ∀ b ∈ done ++ front, waiting rows done b = ∅ := by
    intro b hb
    rcases List.mem_append.mp hb with hEarlier | hLast
    · exact h.closed b hEarlier
    · exact ((h.front b).mp hLast).2.2
  refine ⟨counts, hCounts, ?_, ?_, ?_, ?_⟩
  · exact tallied_start hTally.size hTally.outstanding
  · exact fun b hb => waiting_append_eq_empty (hClosed b hb)
  · exact pairwise_lt_mergeSort hTally.nodup
  · intro b
    rw [List.mem_mergeSort, hTally.freed b]
    refine and_congr_right fun hb => and_congr_left fun _ => ?_
    constructor
    · intro hSome hMem
      rw [hClosed b hMem] at hSome
      exact absurd hSome Finset.not_nonempty_empty
    · intro hNew
      rw [Finset.nonempty_iff_ne_empty]
      intro hNone
      have hFront : b ∈ front :=
        (h.front b).mpr ⟨hb, fun hMem => hNew (List.mem_append_left _ hMem), hNone⟩
      exact hNew (List.mem_append_right _ hFront)

def left (rows : Rows) (done : List ℕ) : Finset ℕ :=
  (Finset.range rows.size).filter (· ∉ done)

theorem mem_left {done : List ℕ} {a : ℕ} : a ∈ left rows done ↔ a < rows.size ∧ a ∉ done := by
  simp [left]

/-- If no row is free, nothing more is peeled. -/
theorem Poised.peels_nil {done : List ℕ} {outstanding : Array ℕ}
    (h : Poised rows done outstanding []) :
    Peels (Beats rows) (· < rows.size) done [] := by
  intro b hb hNew
  by_contra hFree
  have hMem : b ∈ ([] : List ℕ) := by
    refine (h.front b).mpr ⟨hb, hNew, waiting_eq_empty.mpr ?_⟩
    intro a ha hDone hBeats
    exact hFree ⟨a, ha, hDone, hBeats⟩
  cases hMem

/-- The rounds as a loop that goes on while there is a front, with no bound on their number. What is
taken off the counts in a round is always there to be taken. -/
inductive Drains (dominated : Array (List ℕ)) :
    Array ℕ → List ℕ → List (List ℕ) → Prop where
  | done (outstanding : Array ℕ) : Drains dominated outstanding [] []
  | round {outstanding : Array ℕ} {front : List ℕ} {counts : Counts} {fronts : List (List ℕ)}
      (nonempty : front ≠ []) (released : releaseFront dominated outstanding front = .ok counts)
      (later : Drains dominated counts.outstanding (counts.freed.mergeSort (· ≤ ·)) fronts) :
      Drains dominated outstanding front (front :: fronts)

/-- Fuel for every front is fuel enough. -/
theorem Drains.rounds_eq {dominated : Array (List ℕ)} {outstanding : Array ℕ} {front : List ℕ}
    {fronts : List (List ℕ)} (h : Drains dominated outstanding front fronts) {fuel : ℕ}
    (hFuel : fronts.length ≤ fuel) : rounds dominated fuel outstanding front = .ok fronts := by
  induction h generalizing fuel with
  | done outstanding => cases fuel <;> rfl
  | @round outstanding front counts fronts nonempty released _ ih =>
      obtain ⟨first, rest, rfl⟩ := List.exists_cons_of_ne_nil nonempty
      obtain ⟨fuel, rfl⟩ : ∃ later, fuel = later + 1 :=
        Nat.exists_eq_succ_of_ne_zero (Nat.ne_zero_of_lt hFuel)
      change (releaseFront dominated outstanding (first :: rest) >>= fun counts =>
        rounds dominated fuel counts.outstanding (counts.freed.mergeSort (· ≤ ·)) >>=
          fun later => pure ((first :: rest) :: later)) = _
      rw [released]
      change (rounds dominated fuel counts.outstanding _ >>= _) = _
      rw [ih (Nat.le_of_succ_le_succ hFuel)]
      rfl

/-- Every front holds a row, so the loop ends after at most as many rounds as there are rows
left. -/
theorem Poised.exists_drains {dominated : Array (List ℕ)}
    (hDominated : ∀ a, a < rows.size → dominated.getD a [] = dominatedBy rows a)
    {done front : List ℕ} {outstanding : Array ℕ} (h : Poised rows done outstanding front) :
    ∃ fronts, Drains dominated outstanding front fronts ∧
      fronts.length ≤ (left rows done).card ∧
      Peels (Beats rows) (· < rows.size) done fronts := by
  induction hCard : (left rows done).card using Nat.strong_induction_on generalizing
    done front outstanding with
  | _ n ih =>
      cases front with
      | nil => exact ⟨[], .done _, Nat.zero_le n, h.peels_nil⟩
      | cons first rest =>
          obtain ⟨counts, hCounts, hNext⟩ := h.round hDominated
          have hFirst : first ∈ left rows done := by
            obtain ⟨hSize, hNew, -⟩ := (h.front first).mp List.mem_cons_self
            exact mem_left.mpr ⟨hSize, hNew⟩
          have hSubset : left rows (done ++ first :: rest) ⊆ (left rows done).erase first := by
            intro b hb
            rw [mem_left, List.mem_append, List.mem_cons] at hb
            rw [Finset.mem_erase, mem_left]
            tauto
          have hFewer : (left rows (done ++ first :: rest)).card < n := by
            rw [← hCard]
            exact (Finset.card_le_card hSubset).trans_lt (Finset.card_erase_lt_of_mem hFirst)
          obtain ⟨fronts, hDrains, hLength, hPeels⟩ := ih _ hFewer hNext rfl
          refine ⟨(first :: rest) :: fronts, .round (List.cons_ne_nil _ _) hCounts hDrains,
            hLength.trans_lt hFewer, List.cons_ne_nil _ _, h.ascending, ?_, hPeels⟩
          intro b
          rw [h.front b, waiting_eq_empty]

/-- The loop of the sort of all rows, from its first front to its end. -/
def Sorts (rows : Rows) (fronts : List (List ℕ)) : Prop :=
  let positions := List.range rows.size
  let outstanding := (positions.map (dominatorCount rows)).toArray
  Drains (positions.map (dominatedBy rows)).toArray outstanding
    (positions.filter fun a => outstanding.getD a 0 = 0) fronts

/-- The sort of all rows comes to its end, and its fronts are those of peeling. -/
theorem ofRows_sorts (rows : Rows) :
    ∃ fronts, ofRows rows = .ok fronts ∧ Sorts rows fronts ∧
      Peels (Beats rows) (· < rows.size) [] fronts := by
  have hDominated : ∀ a, a < rows.size →
      ((List.range rows.size).map (dominatedBy rows)).toArray.getD a [] = dominatedBy rows a := by
    intro a ha
    simp [ha]
  have hCount : ∀ b, b < rows.size →
      ((List.range rows.size).map (dominatorCount rows)).toArray.getD b 0 =
        (waiting rows [] b).card := by
    intro b hb
    simp [hb, dominatorCount_eq_card]
  have hPoised : Poised rows [] ((List.range rows.size).map (dominatorCount rows)).toArray
      ((List.range rows.size).filter fun a =>
        ((List.range rows.size).map (dominatorCount rows)).toArray.getD a 0 = 0) := by
    refine ⟨tallied_start (by simp) hCount, nofun, List.pairwise_lt_range.filter _, ?_⟩
    intro b
    rw [List.mem_filter, List.mem_range]
    refine and_congr_right fun hb => ?_
    rw [hCount b hb]
    simp
  obtain ⟨fronts, hDrains, hLength, hPeels⟩ := hPoised.exists_drains hDominated
  exact ⟨fronts, hDrains.rounds_eq (by simpa [left] using hLength), hDrains, hPeels⟩

end Counting

end WitnessSearch.Fronts
