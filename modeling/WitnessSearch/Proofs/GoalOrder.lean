import WitnessSearch.Goal

/-! The lexicographic order of goals is a linear order whose equality is equality of goals.
Everything that looks a goal up by its place among the ascending goals relies on this. -/

namespace WitnessSearch

namespace Location

instance : Std.TransCmp order :=
  inferInstanceAs (Std.TransCmp (compareLex (compareOn unit)
    (compareLex (compareOn function) (compareOn line))))

instance : Std.LawfulEqCmp order where
  eq_of_compare {a b} h := by
    rw [order, Ordering.then_eq_eq, Ordering.then_eq_eq] at h
    obtain ⟨hUnit, hFunction, hLine⟩ := h
    cases a
    cases b
    congr
    · exact Std.LawfulEqOrd.eq_of_compare hUnit
    · exact Std.LawfulEqOrd.eq_of_compare hFunction
    · exact Std.LawfulEqOrd.eq_of_compare hLine

instance : Std.TransOrd Location := inferInstanceAs (Std.TransCmp order)

instance : Std.LawfulEqOrd Location := inferInstanceAs (Std.LawfulEqCmp order)

end Location

namespace Goal

instance : Std.TransCmp order :=
  inferInstanceAs (Std.TransCmp (compareLex (compareOn id) (compareOn location)))

instance : Std.LawfulEqCmp order where
  eq_of_compare {a b} h := by
    rw [order, Ordering.then_eq_eq] at h
    obtain ⟨hId, hLocation⟩ := h
    cases a
    cases b
    congr
    · exact Std.LawfulEqOrd.eq_of_compare hId
    · exact Std.LawfulEqOrd.eq_of_compare hLocation

theorem order_ne_lt_self (goal : Goal) : order goal goal ≠ .lt := by
  simp [Std.ReflCmp.compare_self]

/-- A strictly ascending list holds each of its goals once. -/
def Ascending (goals : List Goal) : Prop :=
  goals.Pairwise (order · · = .lt)

theorem Ascending.nodup {goals : List Goal} (h : Ascending goals) : goals.Nodup := by
  refine List.Pairwise.imp ?_ h
  rintro a b hLess rfl
  exact order_ne_lt_self a hLess

/-- One of the goals, with so many of them below it. -/
structure IsNth (goals : List Goal) (n : Nat) (goal : Goal) : Prop where
  mem : goal ∈ goals
  below : (goals.countP fun other => order other goal = .lt) = n

/-- In an ascending list each goal has its place. -/
theorem Ascending.isNth {goals : List Goal} (h : Ascending goals) {n : Nat} {goal : Goal}
    (hGoal : goals[n]? = some goal) : IsNth goals n goal := by
  refine ⟨List.mem_of_getElem? hGoal, ?_⟩
  induction goals generalizing n with
  | nil => cases hGoal
  | cons next rest ih =>
      obtain ⟨hNext, hRest⟩ := List.pairwise_cons.mp h
      cases n with
      | zero =>
          obtain rfl : next = goal := Option.some.inj hGoal
          refine List.countP_eq_zero.mpr fun other hOther => ?_
          rcases List.mem_cons.mp hOther with rfl | hOther
          · simpa using order_ne_lt_self other
          · simp [Std.OrientedCmp.gt_of_lt (hNext other hOther)]
      | succ n =>
          have hAfter : rest[n]? = some goal := hGoal
          have hBelow := hNext goal (List.mem_of_getElem? hAfter)
          rw [List.countP_cons_of_pos (by simpa using hBelow), ih hRest hAfter]

/-- Inserting a goal adds this goal and drops none. -/
theorem mem_insertSorted (goal other : Goal) (goals : List Goal) :
    other ∈ insertSorted goal goals ↔ other = goal ∨ other ∈ goals := by
  induction goals with
  | nil => simp [insertSorted]
  | cons next rest ih =>
      cases hOrder : order goal next with
      | lt => simp [insertSorted, hOrder]
      | eq =>
          have hSame : goal = next := Std.LawfulEqCmp.eq_of_compare hOrder
          simp [insertSorted, hSame, Std.ReflCmp.compare_self]
      | gt =>
          simp only [insertSorted, hOrder, List.mem_cons, ih]
          exact or_left_comm

/-- A goal is inserted at its place, so ascending goals stay ascending. -/
theorem ascending_insertSorted {goals : List Goal} (h : Ascending goals) (goal : Goal) :
    Ascending (insertSorted goal goals) := by
  induction goals with
  | nil => simp [insertSorted, Ascending]
  | cons next rest ih =>
      obtain ⟨hNext, hRest⟩ := List.pairwise_cons.mp h
      cases hOrder : order goal next with
      | lt =>
          simp only [insertSorted, hOrder]
          refine List.pairwise_cons.mpr ⟨?_, h⟩
          intro other hOther
          rcases List.mem_cons.mp hOther with rfl | hOther
          · exact hOrder
          · exact Std.TransCmp.lt_trans hOrder (hNext other hOther)
      | eq => simpa only [insertSorted, hOrder] using h
      | gt =>
          simp only [insertSorted, hOrder]
          refine List.pairwise_cons.mpr ⟨?_, ih hRest⟩
          intro other hOther
          rcases (mem_insertSorted goal other rest).mp hOther with rfl | hOther
          · exact Std.OrientedCmp.lt_of_gt hOrder
          · exact hNext other hOther

/-- A goal that is there already finds its place taken. -/
theorem insertSorted_of_mem {goals : List Goal} (h : Ascending goals) {goal : Goal}
    (hMem : goal ∈ goals) : insertSorted goal goals = goals := by
  induction goals with
  | nil => cases hMem
  | cons next rest ih =>
      obtain ⟨hNext, hRest⟩ := List.pairwise_cons.mp h
      rcases List.mem_cons.mp hMem with rfl | hMem
      · simp [insertSorted, Std.ReflCmp.compare_self]
      · have hOrder : order goal next = .gt := Std.OrientedCmp.gt_of_lt (hNext goal hMem)
        simp only [insertSorted, hOrder, ih hRest hMem]

/-- A goal that is filtered out may as well not be inserted. -/
theorem filter_insertSorted {keeps : Goal → Bool} {goal : Goal} (h : keeps goal = false)
    (goals : List Goal) : (insertSorted goal goals).filter keeps = goals.filter keeps := by
  induction goals with
  | nil => simp [insertSorted, h]
  | cons next rest ih =>
      cases hOrder : order goal next with
      | lt => simp [insertSorted, hOrder, List.filter_cons, h]
      | eq => simp only [insertSorted, hOrder]
      | gt => simp only [insertSorted, hOrder, List.filter_cons, ih]

end Goal

end WitnessSearch
