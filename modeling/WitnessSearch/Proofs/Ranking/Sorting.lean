import WitnessSearch.Proofs.FloatOrder
import WitnessSearch.Ranking.Sorting

/-! The stable order. Whatever the comparison is, sorting only moves the elements. If the comparison
is a weak order then what is less comes ahead, and what does not differ stays in the order it was
in. Comparing keys that are numbers is a weak order in both directions. -/

namespace WitnessSearch

theorem perm_insertFromBack {α : Type} (less : α → α → Bool) (x : α) (xs : List α) :
    (insertFromBack less x xs).Perm (x :: xs) := by
  induction xs with
  | nil => exact List.Perm.refl _
  | cons last before ih =>
      rw [insertFromBack]
      split
      · exact (ih.cons last).trans (List.Perm.swap x last before)
      · exact List.Perm.refl _

/-- Sorting loses nothing and adds nothing. -/
theorem perm_stableSort {α : Type} (less : α → α → Bool) (xs : List α) :
    (stableSort less xs).Perm xs := by
  have hFold : ∀ sorted : List α,
      (xs.foldl (fun sorted x => insertFromBack less x sorted) sorted).Perm (xs ++ sorted) := by
    induction xs with
    | nil => exact fun sorted => List.Perm.refl sorted
    | cons x xs ih =>
        intro sorted
        refine (ih (insertFromBack less x sorted)).trans ?_
        exact ((perm_insertFromBack less x sorted).append_left xs).trans List.perm_middle
  simpa [stableSort] using (List.reverse_perm _).trans (hFold [])

/-- Keys that are all numbers can be sorted by. -/
theorem sortByKey_of_numeric {α : Type} (before : Float → Float → Bool) (key : α → Float)
    (xs : List α) (h : ∀ x ∈ xs, (key x).isNaN = false) :
    sortByKey before key xs = .ok (stableSort (fun a b => before (key a) (key b)) xs) := by
  have hOrdered : areOrdered (xs.map key) = true := by
    simp only [areOrdered, Bool.or_eq_true, List.all_eq_true, List.mem_map]
    refine .inl ?_
    rintro _ ⟨x, hx, rfl⟩
    rw [h x hx]
    rfl
  rw [sortByKey, if_pos (.inr hOrdered)]

section Sorting

variable {α : Type}

/-- How elements stand in a stable order: one is less, or neither is and they stand as before. -/
def Precedes (less : α → α → Bool) (before : α → α → Prop) (a b : α) : Prop :=
  less a b = true ∨ less b a = false ∧ before a b

/-- A comparison that sorting can rely on. -/
structure IsWeakOrder (less : α → α → Bool) : Prop where
  asymm : ∀ a b, less a b = true → less b a = false
  trans : ∀ a b c, less b a = false → less c b = false → less c a = false

theorem IsWeakOrder.not_less {less : α → α → Bool} {before : α → α → Prop} {a b : α}
    (hOrder : IsWeakOrder less) (h : Precedes less before a b) : less b a = false :=
  h.elim (hOrder.asymm a b) And.left

variable {less : α → α → Bool} {before : α → α → Prop} (hOrder : IsWeakOrder less)
include hOrder

/-- Inserting from the back keeps the order, and the new element behind those it is equal to. -/
theorem pairwise_insertFromBack {x : α} {xs : List α} (hx : ∀ y ∈ xs, before y x)
    (h : xs.Pairwise fun later earlier => Precedes less before earlier later) :
    (insertFromBack less x xs).Pairwise
      fun later earlier => Precedes less before earlier later := by
  induction xs with
  | nil => exact List.pairwise_singleton _ _
  | cons last rest ih =>
      obtain ⟨hLast, hRest⟩ := List.pairwise_cons.mp h
      obtain ⟨hFirst, hLater⟩ := List.forall_mem_cons.mp hx
      unfold insertFromBack
      split
      · rename_i hLess
        refine List.pairwise_cons.mpr ⟨fun y hy => ?_, ih hLater hRest⟩
        rcases List.mem_cons.mp ((perm_insertFromBack _ x rest).subset hy) with rfl | hOld
        · exact .inl hLess
        · exact hLast y hOld
      · rename_i hNot
        have hStays : less x last = false := Bool.eq_false_iff.mpr hNot
        refine List.pairwise_cons.mpr ⟨fun y hy => ?_, h⟩
        rcases List.mem_cons.mp hy with rfl | hOld
        · exact .inr ⟨hStays, hFirst⟩
        · exact .inr ⟨hOrder.trans y last x (hOrder.not_less (hLast y hOld)) hStays, hLater y hOld⟩

/-- A stable sort puts what is less ahead and leaves the rest as it was. -/
theorem pairwise_stableSort {xs : List α} (h : xs.Pairwise before) :
    (stableSort less xs).Pairwise (Precedes less before) := by
  have hFold : ∀ sorted : List α, (∀ y ∈ sorted, ∀ x ∈ xs, before y x) →
      sorted.Pairwise (fun later earlier => Precedes less before earlier later) →
      (xs.foldl (fun sorted x => insertFromBack less x sorted) sorted).Pairwise
        fun later earlier => Precedes less before earlier later := by
    induction xs with
    | nil => exact fun _ _ hSorted => hSorted
    | cons x xs ih =>
        intro sorted hAhead hSorted
        obtain ⟨hx, hRest⟩ := List.pairwise_cons.mp h
        have hInsert := pairwise_insertFromBack hOrder (fun y hy => hAhead y hy x (by simp)) hSorted
        refine ih hRest _ (fun y hy z hz => ?_) hInsert
        rcases List.mem_cons.mp ((perm_insertFromBack _ x sorted).subset hy) with rfl | hOld
        · exact hx z hz
        · exact hAhead y hOld z (List.mem_cons_of_mem _ hz)
  exact List.pairwise_reverse.mpr (hFold [] nofun List.Pairwise.nil)

end Sorting

section Keys

variable {α : Type} {key : α → Float} (hNumbers : ∀ x, (key x).isNaN = false)
include hNumbers

theorem isWeakOrder_keys : IsWeakOrder fun a b => decide (key a < key b) where
  asymm a b h := by
    simpa using FloatOrder.lt_asymm (hNumbers a) (hNumbers b) (of_decide_eq_true h)
  trans a b c hAB hBC := by
    simp only [decide_eq_false_iff_not] at hAB hBC ⊢
    exact FloatOrder.not_lt_trans (hNumbers a) (hNumbers b) (hNumbers c) hAB hBC

/-- Comparing by falling keys is a weak order, just as comparing by rising keys. -/
theorem isWeakOrder_keys_falling : IsWeakOrder fun a b => decide (key b < key a) where
  asymm a b h := by
    simpa using FloatOrder.lt_asymm (hNumbers b) (hNumbers a) (of_decide_eq_true h)
  trans a b c hAB hBC := by
    simp only [decide_eq_false_iff_not] at hAB hBC ⊢
    exact FloatOrder.not_lt_trans (hNumbers c) (hNumbers b) (hNumbers a) hBC hAB

/-- Sorting by keys that are numbers leaves no key behind a larger one. -/
theorem ascending_stableSort (xs : List α) :
    (stableSort (fun a b => decide (key a < key b)) xs).Pairwise fun a b => ¬key b < key a := by
  have hOrder := isWeakOrder_keys hNumbers
  refine (pairwise_stableSort hOrder (List.pairwise_of_forall fun _ _ => trivial)).imp fun h => ?_
  simpa using hOrder.not_less h

/-- In a sorted list nothing is below the first element. -/
theorem not_lt_head {xs : List α} (h : xs.Pairwise fun a b => ¬key b < key a) {first : α}
    (hFirst : xs.head? = some first) : ∀ x ∈ xs, ¬key x < key first := by
  obtain ⟨rest, rfl⟩ := List.head?_eq_some_iff.mp hFirst
  exact List.forall_mem_cons.mpr
    ⟨FloatOrder.lt_irrefl (hNumbers first), (List.pairwise_cons.mp h).1⟩

/-- In a sorted list nothing is above the last element. -/
theorem not_last_lt {xs : List α} (h : xs.Pairwise fun a b => ¬key b < key a) {last : α}
    (hLast : xs.getLast? = some last) : ∀ x ∈ xs, ¬key last < key x := by
  obtain ⟨ahead, rfl⟩ := List.getLast?_eq_some_iff.mp hLast
  intro x hx
  rcases List.mem_append.mp hx with hAhead | hSame
  · exact (List.pairwise_append.mp h).2.2 x hAhead last List.mem_cons_self
  · rw [List.mem_singleton.mp hSame]
    exact FloatOrder.lt_irrefl (hNumbers last)

/-- There are a least and a greatest key. -/
theorem exists_ends {xs : List α} (hSome : xs ≠ []) :
    ∃ first last, first ∈ xs ∧ last ∈ xs ∧ (∀ x ∈ xs, ¬key x < key first) ∧
      ∀ x ∈ xs, ¬key last < key x := by
  have hSorted := ascending_stableSort hNumbers xs
  have hPerm := perm_stableSort (fun a b => decide (key a < key b)) xs
  generalize stableSort _ xs = sorted at hSorted hPerm
  have hSome' : sorted ≠ [] := fun hNone => hSome (hNone ▸ hPerm).nil_eq.symm
  obtain ⟨first, rest, rfl⟩ := List.exists_cons_of_ne_nil hSome'
  have hLast := List.getLast?_eq_some_getLast hSome'
  exact ⟨first, _, hPerm.subset List.mem_cons_self,
    hPerm.subset (List.mem_of_getLast? hLast),
    fun x hx => not_lt_head hNumbers hSorted rfl x (hPerm.symm.subset hx),
    fun x hx => not_last_lt hNumbers hSorted hLast x (hPerm.symm.subset hx)⟩

end Keys

end WitnessSearch
