import Mathlib.Data.Fintype.Pigeonhole
import Mathlib.Data.List.Nodup
import Mathlib.Order.WellFounded
import WitnessSearch.Proofs.Ranking.Layers

/-! Sorting into fronts where domination may run in a circle, as it can when entries are not
numbers. What peeling takes are the rows below which every descent along domination comes to an end.
In a finite pool the other rows are those that lie on a cycle and those that a chain of domination
leads to from a cycle. Among rows of numbers there is none. -/

namespace WitnessSearch.Fronts

open Relation

section Descent

variable {step : ℕ → ℕ → Prop}

/-- A chain of steps leads to the position from a cycle, or from its own cycle if it lies on one. -/
def BehindCycle (step : ℕ → ℕ → Prop) (b : ℕ) : Prop :=
  ∃ c, TransGen step c c ∧ ReflTransGen step c b

/-- What is behind a cycle stays behind one under any map that keeps the steps. -/
theorem BehindCycle.lift {step' : ℕ → ℕ → Prop} {b : ℕ} (h : BehindCycle step b) (f : ℕ → ℕ)
    (hStep : ∀ a b, step a b → step' (f a) (f b)) : BehindCycle step' (f b) := by
  obtain ⟨c, hCycle, hChain⟩ := h
  exact ⟨f c, hCycle.lift f hStep, hChain.lift f hStep⟩

theorem BehindCycle.exists_step {b : ℕ} (h : BehindCycle step b) : ∃ a, step a b := by
  obtain ⟨c, hCycle, hChain⟩ := h
  obtain ⟨a, -, hStep⟩ := TransGen.tail'_iff.mp (hCycle.trans_left hChain)
  exact ⟨a, hStep⟩

/-- Nothing behind a cycle is accessible, since the cycle can be gone round for ever. -/
theorem BehindCycle.not_acc {b : ℕ} (h : BehindCycle step b) : ¬Acc step b := by
  obtain ⟨c, hCycle, hChain⟩ := h
  intro hAcc
  have hStart : Acc (TransGen step) c := by
    rcases reflTransGen_iff_eq_or_transGen.mp hChain with rfl | hSome
    · exact hAcc.transGen
    · exact hAcc.transGen.inv hSome
  induction hStart with
  | intro c _ ih => exact ih c hCycle hCycle (hCycle.to_reflTransGen.trans hChain)

theorem reflTransGen_of_descent {f : ℕ → ℕ} (hStep : ∀ n, step (f (n + 1)) (f n)) {i j : ℕ}
    (h : i ≤ j) : ReflTransGen step (f j) (f i) := by
  induction j, h using Nat.le_induction with
  | base => exact .refl
  | succ j _ ih => exact .head (hStep j) ih

/-- A descent that never ends in a finite pool comes back to a position. -/
theorem exists_cycle_of_descent {n : ℕ} (hBound : ∀ a b, step a b → a < n) {f : ℕ → ℕ}
    (hStep : ∀ n, step (f (n + 1)) (f n)) : BehindCycle step (f 0) := by
  obtain ⟨i, j, hNe, hSame⟩ := Finite.exists_ne_map_eq_of_infinite
    fun k => (⟨f (k + 1), hBound _ _ (hStep k)⟩ : Fin n)
  have hBack : f (i + 1) = f (j + 1) := congrArg Fin.val hSame
  have hCycle : ∀ {i j : ℕ}, i < j → f (i + 1) = f (j + 1) →
      TransGen step (f (i + 1)) (f (i + 1)) := by
    intro i j hLess hBack
    have hRest := reflTransGen_of_descent hStep (Nat.succ_le_succ hLess : i + 2 ≤ j + 1)
    have hRound : TransGen step (f (j + 1)) (f (i + 1)) := .trans_right hRest (.single (hStep _))
    rwa [← hBack] at hRound
  refine ⟨f (i + 1), ?_, reflTransGen_of_descent hStep (Nat.zero_le _)⟩
  rcases Nat.lt_or_gt_of_ne hNe with hLess | hLess
  · exact hCycle hLess hBack
  · rw [hBack]
    exact hCycle hLess hBack.symm

/-- In a bounded range, what is not accessible is behind a cycle. A descent without end must come
back to a place it has been to. -/
theorem not_acc_iff_behindCycle {n : ℕ} (hBound : ∀ a b, step a b → a < n) {b : ℕ} :
    ¬Acc step b ↔ BehindCycle step b := by
  constructor
  · intro h
    obtain ⟨f, rfl, hStep⟩ := not_acc_iff_exists_descending_chain.mp h
    exact exists_cycle_of_descent hBound hStep
  · exact BehindCycle.not_acc

end Descent

namespace Peels

/-- A dominator with what it dominates, both in the pool. -/
def Among (dominator : ℕ → ℕ → Prop) (pool : ℕ → Prop) (a b : ℕ) : Prop :=
  pool a ∧ pool b ∧ dominator a b

variable {dominator : ℕ → ℕ → Prop} {pool : ℕ → Prop} {done : List ℕ} {fronts : List (List ℕ)}

/-- All dominators of what is taken were taken before. -/
theorem acc_of_mem (h : Peels dominator pool done fronts)
    (hDone : ∀ a ∈ done, Acc (Among dominator pool) a) :
    ∀ b ∈ fronts.flatten, Acc (Among dominator pool) b := by
  induction fronts generalizing done with
  | nil => exact fun _ hMem => absurd hMem List.not_mem_nil
  | cons front rest ih =>
      obtain ⟨-, -, hMem, hRest⟩ := h
      have hFront : ∀ b ∈ front, Acc (Among dominator pool) b := by
        intro b hb
        refine Acc.intro b fun a ⟨ha, _, hDominates⟩ => hDone a ?_
        by_contra hNew
        exact ((hMem b).mp hb).2.2 a ha hNew hDominates
      intro b hb
      rcases List.mem_append.mp hb with hHere | hLater
      · exact hFront b hHere
      · exact ih hRest (fun a ha => (List.mem_append.mp ha).elim (hDone a) (hFront a)) b hLater

/-- What is left in the end has a dominator each among what is left. -/
theorem exists_left (h : Peels dominator pool done fronts) :
    ∀ b, pool b → b ∉ done ++ fronts.flatten →
      ∃ a, pool a ∧ a ∉ done ++ fronts.flatten ∧ dominator a b := by
  induction fronts generalizing done with
  | nil => simpa [Peels] using h
  | cons front rest ih =>
      obtain ⟨-, -, -, hRest⟩ := h
      simpa using ih hRest

/-- Peeling takes exactly the members of the pool from which every descent along domination comes
to an end. -/
theorem mem_iff_acc (h : Peels dominator pool [] fronts) {b : ℕ} (hb : pool b) :
    b ∈ fronts.flatten ↔ Acc (Among dominator pool) b := by
  refine ⟨h.acc_of_mem nofun b, fun hAcc => ?_⟩
  induction hAcc with
  | intro b _ ih =>
      by_contra hLeft
      obtain ⟨a, ha, hOut, hDominates⟩ := h.exists_left b hb hLeft
      exact hOut (ih a ⟨ha, hb, hDominates⟩ ha)

/-- What peeling leaves of a finite pool is what lies on a cycle of domination or behind one. -/
theorem left_iff_behindCycle {n : ℕ} (hBound : ∀ a, pool a → a < n)
    (h : Peels dominator pool [] fronts) {b : ℕ} (hb : pool b) :
    b ∉ fronts.flatten ↔ BehindCycle (Among dominator pool) b := by
  rw [h.mem_iff_acc hb]
  exact not_acc_iff_behindCycle fun a _ hStep => hBound a hStep.1

end Peels

section Pool

variable (rows : Rows) (pool : List ℕ)

def poolRows : Rows :=
  (pool.map fun i => rows.getD i []).toArray

def PoolBeats (a b : ℕ) : Prop :=
  a ∈ pool ∧ b ∈ pool ∧ Beats rows a b

variable {rows pool}

/-- Within a pool, a place beats another as the rows named there do. -/
theorem beats_poolRows {a b : ℕ} (ha : a < pool.length) (hb : b < pool.length) :
    Beats (poolRows rows pool) a b ↔ Beats rows (pool.getD a 0) (pool.getD b 0) := by
  simp [Beats, poolRows, ha, hb]

theorem getD_idxOf {i : ℕ} (h : i ∈ pool) : pool.getD (pool.idxOf i) 0 = i := by
  rw [List.getD_eq_getElem _ _ (List.idxOf_lt_length_of_mem h), List.getElem_idxOf]

theorem idxOf_getD (hDistinct : pool.Nodup) {a : ℕ} (h : a < pool.length) :
    pool.idxOf (pool.getD a 0) = a := by
  rw [List.getD_eq_getElem _ _ h, hDistinct.idxOf_getElem a h]

theorem getD_mem_pool {a : ℕ} (h : a < pool.length) : pool.getD a 0 ∈ pool := by
  rw [List.getD_eq_getElem _ _ h]
  exact List.getElem_mem h

/-- A place in a pool is behind a cycle of places exactly if its member is behind a cycle of
members. -/
theorem behindCycle_getD_iff (hDistinct : pool.Nodup) {a : ℕ} (ha : a < pool.length) :
    BehindCycle (Peels.Among (Beats (poolRows rows pool)) (· < (poolRows rows pool).size)) a ↔
      BehindCycle (PoolBeats rows pool) (pool.getD a 0) := by
  have hSize : (poolRows rows pool).size = pool.length := by simp [poolRows]
  rw [hSize]
  constructor
  · refine fun h => h.lift (fun a => pool.getD a 0) fun a b ⟨ha, hb, hBeats⟩ => ?_
    exact ⟨getD_mem_pool ha, getD_mem_pool hb, (beats_poolRows ha hb).mp hBeats⟩
  · intro h
    have hStep : ∀ i j, PoolBeats rows pool i j →
        Peels.Among (Beats (poolRows rows pool)) (· < pool.length) (pool.idxOf i)
          (pool.idxOf j) := by
      intro i j ⟨hi, hj, hBeats⟩
      have hFirst := List.idxOf_lt_length_of_mem hi
      have hSecond := List.idxOf_lt_length_of_mem hj
      exact ⟨hFirst, hSecond, by rwa [beats_poolRows hFirst hSecond, getD_idxOf hi, getD_idxOf hj]⟩
    have hPlaces := h.lift pool.idxOf hStep
    rwa [idxOf_getD hDistinct ha] at hPlaces

/-- Rows of numbers do not dominate each other in a circle. -/
theorem not_cycle_of_numeric {width : ℕ} (hLength : ∀ row ∈ rows, row.length = width)
    (hValid : ∀ i ∈ pool, i < rows.size)
    (hNumeric : ∀ i ∈ pool, IsNumeric (rows.getD i [])) (c : ℕ) :
    ¬TransGen (PoolBeats rows pool) c c := by
  have hRow : ∀ {i}, i ∈ pool → (rows.getD i []).length = width :=
    fun hi => hLength _ (getD_mem (hValid _ hi))
  have hTrans : IsTrans ℕ (PoolBeats rows pool) := by
    refine ⟨fun a b c ⟨ha, hb, hab⟩ ⟨_, hc, hbc⟩ => ⟨ha, hc, ?_⟩⟩
    exact dominates_trans (hNumeric a ha) (hNumeric b hb) (hNumeric c hc)
      ((hRow ha).trans (hRow hb).symm) ((hRow hb).trans (hRow hc).symm) hab hbc
  rw [transGen_eq_self]
  exact fun hSelf => not_beats_self c hSelf.2.2

/-- Places in a pool under the names that its members have among all rows. -/
def named (pool : List ℕ) (places : List (List ℕ)) : List (List ℕ) :=
  places.map fun front => front.map fun a => pool.getD a 0

theorem flatten_named (places : List (List ℕ)) :
    (named pool places).flatten = places.flatten.map fun a => pool.getD a 0 :=
  List.map_flatten.symm

/-- A row of the pool is in the named fronts exactly if its place is in the fronts of places. -/
theorem mem_flatten_named (hDistinct : pool.Nodup) {places : List (List ℕ)}
    (hPlaces : ∀ a ∈ places.flatten, a < pool.length) {a : ℕ} (ha : a < pool.length) :
    pool.getD a 0 ∈ (named pool places).flatten ↔ a ∈ places.flatten := by
  rw [flatten_named]
  refine ⟨fun h => ?_, List.mem_map_of_mem⟩
  obtain ⟨b, hb, hSame⟩ := List.mem_map.mp h
  rw [← idxOf_getD hDistinct ha, ← hSame, idxOf_getD hDistinct (hPlaces b hb)]
  exact hb

/-- Naming different places of a pool without repetitions repeats nothing. -/
theorem nodup_flatten_named (hDistinct : pool.Nodup) {places : List (List ℕ)}
    (hPlaces : ∀ a ∈ places.flatten, a < pool.length) (hNodup : places.flatten.Nodup) :
    (named pool places).flatten.Nodup := by
  rw [flatten_named]
  refine hNodup.map_on fun a ha b hb hSame => ?_
  rw [← idxOf_getD hDistinct (hPlaces a ha), hSame, idxOf_getD hDistinct (hPlaces b hb)]

/-- The fronts of a pool are those of its rows, with the places named again. -/
theorem ofPool_of_sorts {places : List (List ℕ)}
    (h : ofRows (poolRows rows pool) = .ok places) :
    ofPool rows pool = .ok (named pool places) := by
  change (ofRows (poolRows rows pool) >>= fun places => pure (named pool places)) = _
  rw [h]
  rfl

/-- The sort of a pool comes to its end whatever the rows hold, without taking off a count what is
not there. It puts no member into two places. It leaves out exactly the members that lie on a cycle
of domination in the pool or behind one, and among rows of numbers there is no cycle and nobody is
left out. -/
theorem ofPool_leaves_cycles {rows : Rows} {width : ℕ} {pool : List ℕ}
    (hLength : ∀ row ∈ rows, row.length = width) (hDistinct : pool.Nodup)
    (hValid : ∀ i ∈ pool, i < rows.size) :
    ∃ places, Sorts (poolRows rows pool) places ∧ ofPool rows pool = .ok (named pool places) ∧
      (named pool places).flatten.Nodup ∧ (∀ i ∈ (named pool places).flatten, i ∈ pool) ∧
      (∀ i ∈ pool,
        i ∉ (named pool places).flatten ↔ BehindCycle (PoolBeats rows pool) i) ∧
      ((∀ i ∈ pool, IsNumeric (rows.getD i [])) →
        (∀ c, ¬TransGen (PoolBeats rows pool) c c) ∧ (named pool places).flatten.Perm pool) := by
  obtain ⟨places, hPlaces, hSorts, hPeels⟩ := ofRows_sorts (poolRows rows pool)
  have hSize : (poolRows rows pool).size = pool.length := by simp [poolRows]
  have hPlace : ∀ a ∈ places.flatten, a < pool.length :=
    fun a ha => hSize ▸ hPeels.pool_of_mem a ha
  have hNodup : (named pool places).flatten.Nodup :=
    nodup_flatten_named hDistinct hPlace (by simpa using hPeels.nodup List.nodup_nil)
  have hMembers : ∀ i ∈ (named pool places).flatten, i ∈ pool := by
    intro i hi
    rw [flatten_named] at hi
    obtain ⟨a, ha, rfl⟩ := List.mem_map.mp hi
    exact getD_mem_pool (hPlace a ha)
  have hLeft : ∀ i ∈ pool,
      i ∉ (named pool places).flatten ↔ BehindCycle (PoolBeats rows pool) i := by
    intro i hi
    have ha := List.idxOf_lt_length_of_mem hi
    rw [← getD_idxOf hi, mem_flatten_named hDistinct hPlace ha,
      ← behindCycle_getD_iff hDistinct ha]
    exact hPeels.left_iff_behindCycle (fun _ h => h) (hSize.symm ▸ ha)
  refine ⟨places, hSorts, ofPool_of_sorts hPlaces, hNodup, hMembers, hLeft, fun hNumeric => ?_⟩
  have hNone := not_cycle_of_numeric hLength hValid hNumeric
  refine ⟨hNone, (List.perm_ext_iff_of_nodup hNodup hDistinct).mpr fun i => ⟨hMembers i, ?_⟩⟩
  intro hi
  by_contra hOut
  obtain ⟨c, hCycle, -⟩ := (hLeft i hi).mp hOut
  exact hNone c hCycle

/-- Three rows that dominate each other in a circle, since each has an entry that is not a number, a
row that dominates all others and a row that they all dominate. -/
def knottedRows : Rows :=
  let nan : Float := 0.0 / 0.0
  #[[1.0, nan, 2.0], [2.0, 1.0, nan], [nan, 2.0, 1.0], [0.0, 0.0, 0.0], [3.0, 3.0, 3.0]]

theorem ofPool_leaves_cycles_knotted :
    (∀ row ∈ knottedRows, row.length = 3) ∧ [4, 3, 0, 2, 1].Nodup ∧
      (∀ i ∈ [4, 3, 0, 2, 1], i < knottedRows.size) ∧
      ∃ fronts, ofPool knottedRows [4, 3, 0, 2, 1] = .ok fronts ∧ 3 ∈ fronts.flatten ∧
        0 ∉ fronts.flatten ∧ 4 ∉ fronts.flatten := by
  have hLength : ∀ row ∈ knottedRows, row.length = 3 := by decide
  have hDistinct : [4, 3, 0, 2, 1].Nodup := by decide
  have hValid : ∀ i ∈ [4, 3, 0, 2, 1], i < knottedRows.size := by decide
  obtain ⟨places, -, hRun, -, -, hLeft, -⟩ := ofPool_leaves_cycles hLength hDistinct hValid
  have hFirst : PoolBeats knottedRows [4, 3, 0, 2, 1] 0 1 := ⟨by decide, by decide, by decide⟩
  have hSecond : PoolBeats knottedRows [4, 3, 0, 2, 1] 1 2 := ⟨by decide, by decide, by decide⟩
  have hThird : PoolBeats knottedRows [4, 3, 0, 2, 1] 2 0 := ⟨by decide, by decide, by decide⟩
  have hLast : PoolBeats knottedRows [4, 3, 0, 2, 1] 0 4 := ⟨by decide, by decide, by decide⟩
  have hCycle := ((TransGen.single hFirst).tail hSecond).tail hThird
  refine ⟨hLength, hDistinct, hValid, _, hRun, ?_, ?_, ?_⟩
  · by_contra hOut
    obtain ⟨a, ha, -, hBeats⟩ := ((hLeft 3 (by decide)).mp hOut).exists_step
    have hFree : ∀ a ∈ [4, 3, 0, 2, 1], ¬Beats knottedRows a 3 := by decide
    exact hFree a ha hBeats
  · exact (hLeft 0 (by decide)).mpr ⟨0, hCycle, .refl⟩
  · exact (hLeft 4 (by decide)).mpr ⟨0, hCycle, .single hLast⟩

end Pool

end WitnessSearch.Fronts
