import Mathlib.Data.List.GetD
import WitnessSearch.Proofs.FloatOrder
import WitnessSearch.Proofs.Ranking.Dominance
import WitnessSearch.Ranking.Crowding

/-! The preferred rows. For each objective it is the first of the rows that are best on it. -/

namespace WitnessSearch.Fronts

/-- The first position of a least number. -/
structure IsFirstLeast (numbers : List Float) (i : ℕ) : Prop where
  bound : i < numbers.length
  least : ∀ j, j < numbers.length → ¬numbers.getD j 0.0 < numbers.getD i 0.0
  first : ∀ j, j < i → numbers.getD i 0.0 < numbers.getD j 0.0

/-- There is only one first least number. -/
theorem IsFirstLeast.unique {numbers : List Float} {i j : ℕ} (hi : IsFirstLeast numbers i)
    (hj : IsFirstLeast numbers j) : i = j := by
  rcases Nat.lt_trichotomy i j with hLess | hSame | hLess
  · exact absurd (hj.first i hLess) (hi.least j hj.bound)
  · exact hSame
  · exact absurd (hi.first j hLess) (hj.least i hi.bound)

theorem isNaN_getD {row : List Float} (h : IsNumeric row) (i : ℕ) :
    (row.getD i 0.0).isNaN = false := by
  rw [List.getD_eq_getElem?_getD]
  cases hEntry : row[i]? with
  | none => decide
  | some x => exact h x (List.mem_of_getElem? hEntry)

theorem isFirstLeast_singleton {number : Float} (h : number.isNaN = false) :
    IsFirstLeast [number] 0 := by
  refine ⟨by simp, fun j hj => ?_, nofun⟩
  obtain rfl : j = 0 := by simpa using hj
  exact FloatOrder.lt_irrefl h

/-- Looking at one more number. It becomes the first least one only if it is less than the best so
far. -/
theorem IsFirstLeast.append {seen : List Float} {i : ℕ} {number : Float}
    (h : IsFirstLeast seen i) (hSeen : IsNumeric seen) (hNumber : number.isNaN = false) :
    IsFirstLeast (seen ++ [number])
      (if number < seen.getD i 0.0 then seen.length else i) := by
  have hOld : ∀ j, j < seen.length → (seen ++ [number]).getD j 0.0 = seen.getD j 0.0 :=
    fun j hj => List.getD_append _ _ _ _ hj
  have hNew : (seen ++ [number]).getD seen.length 0.0 = number := by
    simp
  have hSplit : ∀ j, j < (seen ++ [number]).length → j < seen.length ∨ j = seen.length := by
    intro j hj
    simp only [List.length_append, List.length_singleton] at hj
    omega
  split
  · rename_i hLess
    have hBelow : ∀ j, j < seen.length → number < seen.getD j 0.0 := fun j hj =>
      FloatOrder.lt_of_lt_of_not_lt hNumber (isNaN_getD hSeen i) (isNaN_getD hSeen j) hLess
        (h.least j hj)
    refine ⟨by simp, ?_, ?_⟩
    · intro j hj
      rw [hNew]
      rcases hSplit j hj with hEarlier | rfl
      · rw [hOld j hEarlier]
        exact FloatOrder.lt_asymm hNumber (isNaN_getD hSeen j) (hBelow j hEarlier)
      · rw [hNew]
        exact FloatOrder.lt_irrefl hNumber
    · intro j hj
      rw [hNew, hOld j hj]
      exact hBelow j hj
  · rename_i hNoLess
    refine ⟨by simpa using Nat.lt_succ_of_lt h.bound, ?_, ?_⟩
    · intro j hj
      rw [hOld i h.bound]
      rcases hSplit j hj with hEarlier | rfl
      · rw [hOld j hEarlier]
        exact h.least j hEarlier
      · rwa [hNew]
    · intro j hj
      rw [hOld i h.bound, hOld j (hj.trans h.bound)]
      exact h.first j hj

/-- The scan goes on from the first least number of what was seen to the first least of all. -/
theorem firstLeast_spec {seen rest : List Float} {i : ℕ} (h : IsFirstLeast seen i)
    (hNumeric : IsNumeric (seen ++ rest)) :
    IsFirstLeast (seen ++ rest) (firstLeast seen.length (i, seen.getD i 0.0) rest) := by
  induction rest generalizing seen i with
  | nil => simpa [firstLeast] using h
  | cons number rest ih =>
      have hSeen : IsNumeric seen := fun x hx => hNumeric x (List.mem_append_left _ hx)
      have hNumber : number.isNaN = false :=
        hNumeric number (List.mem_append_right _ List.mem_cons_self)
      have hStep := h.append hSeen hNumber
      have hAssoc : seen ++ number :: rest = (seen ++ [number]) ++ rest := by simp
      rw [hAssoc] at hNumeric ⊢
      have hBest : (if number < seen.getD i 0.0 then (seen.length, number)
          else (i, seen.getD i 0.0)) =
          ((if number < seen.getD i 0.0 then seen.length else i),
            (seen ++ [number]).getD (if number < seen.getD i 0.0 then seen.length else i) 0.0) := by
        split
        · simp
        · rw [List.getD_append _ _ _ _ h.bound]
      have hLater := ih hStep hNumeric
      rwa [← hBest, List.length_append, List.length_singleton] at hLater

/-- Of things looked at one after another, the best so far is the first of those with the least
score. What was seen grows at its end, so the place of the best one stays what it is. -/
theorem isFirstLeast_foldl {α : Type} {score : α → Float} {seen rest : List α} {i : ℕ} {best : α}
    (h : IsFirstLeast (seen.map score) i) (hBest : seen[i]? = some best)
    (hNumeric : ∀ x ∈ seen ++ rest, (score x).isNaN = false) :
    ∃ i, IsFirstLeast ((seen ++ rest).map score) i ∧
      (seen ++ rest)[i]? =
        some (rest.foldl (fun best x => if score x < score best then x else best) best) := by
  induction rest generalizing seen i best with
  | nil => exact ⟨i, by simpa using h, by simpa using hBest⟩
  | cons x rest ih =>
      have hSeen : IsNumeric (seen.map score) := by
        intro number hMem
        obtain ⟨y, hy, rfl⟩ := List.mem_map.mp hMem
        exact hNumeric y (List.mem_append_left _ hy)
      have hStep := h.append hSeen (hNumeric x (List.mem_append_right _ List.mem_cons_self))
      have hScore : (seen.map score).getD i 0.0 = score best := by
        simp [List.getD_eq_getElem?_getD, hBest]
      have hWhole : seen ++ x :: rest = (seen ++ [x]) ++ rest := by simp
      rw [hScore, List.length_map] at hStep
      rw [hWhole] at hNumeric ⊢
      rw [List.foldl_cons]
      by_cases hLess : score x < score best
      · rw [if_pos hLess] at hStep ⊢
        exact ih (by simpa using hStep) (by simp) hNumeric
      · rw [if_neg hLess] at hStep ⊢
        refine ih (by simpa using hStep) ?_ hNumeric
        rw [List.getElem?_append_left (List.getElem?_eq_some_iff.mp hBest).1, hBest]

/-- A row is the first of the best on an objective. -/
def IsFirstBest (rows : Rows) (objective i : ℕ) : Prop :=
  i < rows.size ∧
    (∀ j, j < rows.size →
      ¬Crowding.value rows objective j < Crowding.value rows objective i) ∧
    ∀ j, j < i → Crowding.value rows objective i < Crowding.value rows objective j

theorem getD_column (rows : Rows) (objective i : ℕ) :
    (column rows objective).getD i 0.0 = Crowding.value rows objective i := by
  have hRow : rows.getD i [] = rows.toList.getD i [] := by simp
  rw [Crowding.value, hRow]
  exact List.getD_map rows.toList [] fun row => row.getD objective 0.0

/-- The first best row for an objective is the first least number of its column. -/
theorem isFirstBest_iff {rows : Rows} {objective i : ℕ} :
    IsFirstBest rows objective i ↔ IsFirstLeast (column rows objective) i := by
  have hLength : (column rows objective).length = rows.size := by simp [column]
  simp only [IsFirstBest, ← getD_column, ← hLength]
  exact ⟨fun h => ⟨h.1, h.2.1, h.2.2⟩, fun h => ⟨h.bound, h.least, h.first⟩⟩

theorem isNumeric_column {rows : Rows} (h : ∀ row ∈ rows, IsNumeric row) (objective : ℕ) :
    IsNumeric (column rows objective) := by
  intro x hx
  obtain ⟨row, hRow, rfl⟩ := List.mem_map.mp hx
  exact isNaN_getD (h row (Array.mem_toList_iff.mp hRow)) objective

/-- For every objective, numeric rows have a first best one, and it is found. -/
theorem isFirstBest_bestFor {rows : Rows} (objective : ℕ)
    (hNumeric : ∀ row ∈ rows, IsNumeric row) (hRows : 0 < rows.size) :
    IsFirstBest rows objective (bestFor rows objective) := by
  have hLength : (column rows objective).length = rows.size := by simp [column]
  have hColumn := isNumeric_column hNumeric objective
  rw [isFirstBest_iff, bestFor]
  cases hEntries : column rows objective with
  | nil => simp [hEntries] at hLength; omega
  | cons first rest =>
      rw [hEntries] at hColumn
      exact firstLeast_spec (isFirstLeast_singleton (hColumn first List.mem_cons_self)) hColumn

/-- The preferred rows are the first best ones of the objectives and no others. -/
theorem mem_preferred {rows : Rows} {width i : ℕ} (hNumeric : ∀ row ∈ rows, IsNumeric row)
    (hRows : 0 < rows.size) :
    i ∈ preferred rows width ↔ ∃ objective, objective < width ∧ IsFirstBest rows objective i := by
  have hBest := fun objective => isFirstBest_bestFor objective hNumeric hRows
  simp only [preferred, List.mem_filter, List.mem_range, decide_eq_true_eq, List.mem_map]
  constructor
  · rintro ⟨-, objective, hObjective, rfl⟩
    exact ⟨objective, hObjective, hBest objective⟩
  · rintro ⟨objective, hObjective, hFirst⟩
    refine ⟨hFirst.1, objective, hObjective, ?_⟩
    exact (isFirstBest_iff.mp (hBest objective)).unique (isFirstBest_iff.mp hFirst)

/-- There is a preferred row whenever there are rows and objectives. -/
theorem preferred_ne_nil {rows : Rows} {width : ℕ} (hNumeric : ∀ row ∈ rows, IsNumeric row)
    (hRows : 0 < rows.size) (hWidth : 0 < width) : preferred rows width ≠ [] :=
  List.ne_nil_of_mem ((mem_preferred hNumeric hRows).mpr
    ⟨0, hWidth, isFirstBest_bestFor 0 hNumeric hRows⟩)

end WitnessSearch.Fronts
