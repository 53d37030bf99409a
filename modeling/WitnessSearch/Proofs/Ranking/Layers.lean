import Mathlib.Data.Fintype.Card
import Mathlib.Order.WellFounded
import WitnessSearch.Proofs.Ranking.Peeling
import WitnessSearch.Proofs.Ranking.Preference

/-! What is taken by peeling, read off round by round. A front is made of what nothing outside the
earlier fronts dominates. Over a finite pool with a strict order nothing is left in the end. -/

namespace WitnessSearch.Fronts

namespace Peels

variable {dominator : ℕ → ℕ → Prop} {pool : ℕ → Prop} {done : List ℕ} {fronts : List (List ℕ)}

theorem ne_nil (h : Peels dominator pool done fronts) : ∀ front ∈ fronts, front ≠ [] := by
  induction fronts generalizing done with
  | nil => exact fun _ hMem => absurd hMem List.not_mem_nil
  | cons front rest ih =>
      obtain ⟨hSome, -, -, hRest⟩ := h
      exact List.forall_mem_cons.mpr ⟨hSome, ih hRest⟩

theorem ascending (h : Peels dominator pool done fronts) :
    ∀ front ∈ fronts, front.Pairwise (· < ·) := by
  induction fronts generalizing done with
  | nil => exact fun _ hMem => absurd hMem List.not_mem_nil
  | cons front rest ih =>
      obtain ⟨-, hAscending, -, hRest⟩ := h
      exact List.forall_mem_cons.mpr ⟨hAscending, ih hRest⟩

theorem pool_of_mem (h : Peels dominator pool done fronts) : ∀ i ∈ fronts.flatten, pool i := by
  induction fronts generalizing done with
  | nil => exact fun _ hMem => absurd hMem List.not_mem_nil
  | cons front rest ih =>
      obtain ⟨-, -, hMem, hRest⟩ := h
      intro i hi
      rcases List.mem_append.mp hi with hFront | hLater
      · exact ((hMem i).mp hFront).1
      · exact ih hRest i hLater

theorem nodup (h : Peels dominator pool done fronts) (hDone : done.Nodup) :
    (done ++ fronts.flatten).Nodup := by
  induction fronts generalizing done with
  | nil => simpa using hDone
  | cons front rest ih =>
      obtain ⟨-, hAscending, hMem, hRest⟩ := h
      have hFront : (done ++ front).Nodup := by
        refine List.nodup_append.mpr ⟨hDone, hAscending.imp Nat.ne_of_lt, ?_⟩
        rintro a ha b hb rfl
        exact ((hMem a).mp hb).2.1 ha
      simpa using ih hRest hFront

/-- The members of a front are what nothing outside the earlier fronts dominates. -/
theorem mem_getD (h : Peels dominator pool done fronts) {r : ℕ} (hr : r < fronts.length) (b : ℕ) :
    b ∈ fronts.getD r [] ↔ pool b ∧ b ∉ done ++ (fronts.take r).flatten ∧
      ∀ a, pool a → a ∉ done ++ (fronts.take r).flatten → ¬dominator a b := by
  induction fronts generalizing done r with
  | nil => exact absurd hr (Nat.not_lt_zero r)
  | cons front rest ih =>
      obtain ⟨-, -, hMem, hRest⟩ := h
      cases r with
      | zero => simpa using hMem b
      | succ r => simpa using ih hRest (Nat.lt_of_succ_lt_succ hr)

/-- Peeling does not depend on the names of what is peeled. -/
theorem map {dominator' : ℕ → ℕ → Prop} {pool' : ℕ → Prop} (f : ℕ → ℕ)
    (hPool : ∀ i, pool' i ↔ ∃ a, pool a ∧ f a = i)
    (hMono : ∀ a b, pool a → pool b → a < b → f a < f b)
    (hDominator : ∀ a b, pool a → pool b → (dominator a b ↔ dominator' (f a) (f b)))
    (hDone : ∀ a ∈ done, pool a) (h : Peels dominator pool done fronts) :
    Peels dominator' pool' (done.map f) (fronts.map (·.map f)) := by
  have hMap : ∀ {list : List ℕ}, (∀ a ∈ list, pool a) → ∀ b, pool b →
      (f b ∈ list.map f ↔ b ∈ list) := by
    intro list hList b hb
    refine ⟨fun hMem => ?_, List.mem_map_of_mem⟩
    obtain ⟨a, ha, hSame⟩ := List.mem_map.mp hMem
    rcases Nat.lt_trichotomy a b with hLess | rfl | hLess
    · exact absurd hSame (hMono a b (hList a ha) hb hLess).ne
    · exact ha
    · exact absurd hSame (hMono b a hb (hList a ha) hLess).ne'
  induction fronts generalizing done with
  | nil =>
      intro i hi hNew
      obtain ⟨b, hb, rfl⟩ := (hPool i).mp hi
      rw [hMap hDone b hb] at hNew
      obtain ⟨a, ha, hLeft, hDominates⟩ := h b hb hNew
      exact ⟨f a, (hPool _).mpr ⟨a, ha, rfl⟩, by rwa [hMap hDone a ha],
        (hDominator a b ha hb).mp hDominates⟩
  | cons front rest ih =>
      obtain ⟨hSome, hAscending, hMem, hRest⟩ := h
      have hFront : ∀ a ∈ front, pool a := fun a ha => ((hMem a).mp ha).1
      have hBoth : ∀ a ∈ done ++ front, pool a :=
        fun a ha => (List.mem_append.mp ha).elim (hDone a) (hFront a)
      refine ⟨by simpa using hSome, ?_, ?_, ?_⟩
      · rw [List.pairwise_map]
        exact hAscending.imp_of_mem fun ha hb hLess => hMono _ _ (hFront _ ha) (hFront _ hb) hLess
      · intro i
        constructor
        · intro hi
          obtain ⟨b, hb, rfl⟩ := List.mem_map.mp hi
          obtain ⟨hPoolB, hNew, hFree⟩ := (hMem b).mp hb
          refine ⟨(hPool _).mpr ⟨b, hPoolB, rfl⟩, by rwa [hMap hDone b hPoolB], ?_⟩
          intro j hj hLeft hDominates
          obtain ⟨a, ha, rfl⟩ := (hPool j).mp hj
          rw [hMap hDone a ha] at hLeft
          exact hFree a ha hLeft ((hDominator a b ha hPoolB).mpr hDominates)
        · rintro ⟨hi, hNew, hFree⟩
          obtain ⟨b, hb, rfl⟩ := (hPool i).mp hi
          rw [hMap hDone b hb] at hNew
          refine List.mem_map_of_mem ((hMem b).mpr ⟨hb, hNew, ?_⟩)
          intro a ha hLeft hDominates
          exact hFree (f a) ((hPool _).mpr ⟨a, ha, rfl⟩) (by rwa [hMap hDone a ha])
            ((hDominator a b ha hb).mp hDominates)
      · simpa using ih hBoth hRest

/-- What was set aside before peeling counts as done. -/
theorem of_rest {aside : List ℕ}
    (h : Peels dominator (fun i => pool i ∧ i ∉ aside) done fronts) :
    Peels dominator pool (aside ++ done) fronts := by
  induction fronts generalizing done with
  | nil =>
      intro b hb hNew
      rw [List.mem_append, not_or] at hNew
      obtain ⟨a, ⟨ha, hAside⟩, hLeft, hDominates⟩ := h b ⟨hb, hNew.1⟩ hNew.2
      exact ⟨a, ha, by simp [hAside, hLeft], hDominates⟩
  | cons front rest ih =>
      obtain ⟨hSome, hAscending, hMem, hRest⟩ := h
      refine ⟨hSome, hAscending, ?_, ?_⟩
      · intro b
        rw [hMem b]
        simp only [List.mem_append, not_or, and_imp, and_assoc]
      · rw [List.append_assoc]
        exact ih hRest

/-- Nothing is left of a finite pool with a strict order. -/
theorem covers {n : ℕ} (hBound : ∀ a, pool a → a < n) (hIrrefl : ∀ a, ¬dominator a a)
    (hTrans : ∀ a b c, pool a → pool b → pool c → dominator a b → dominator b c → dominator a c)
    (h : Peels dominator pool done fronts) : ∀ b, pool b → b ∈ done ++ fronts.flatten := by
  induction fronts generalizing done with
  | nil =>
      intro b hb
      by_contra hNew
      let less (a c : Fin n) : Prop := pool a ∧ pool c ∧ dominator a c
      have hTransLess : IsTrans (Fin n) less := ⟨fun a c e hac hce =>
        ⟨hac.1, hce.2.1, hTrans a c e hac.1 hac.2.1 hce.2.1 hac.2.2 hce.2.2⟩⟩
      have hIrreflLess : Std.Irrefl less := ⟨fun a ha => hIrrefl a ha.2.2⟩
      rw [List.flatten_nil, List.append_nil] at hNew
      obtain ⟨least, ⟨hLeast, hOut⟩, hMin⟩ :=
        (Finite.wellFounded_of_trans_of_irrefl less).has_min {a | pool a ∧ (a : ℕ) ∉ done}
          ⟨⟨b, hBound b hb⟩, hb, hNew⟩
      obtain ⟨a, ha, hLeft, hDominates⟩ := h least hLeast hOut
      exact hMin ⟨a, hBound a ha⟩ ⟨ha, hLeft⟩ ⟨ha, hLeast, hDominates⟩
  | cons front rest ih =>
      obtain ⟨-, -, -, hRest⟩ := h
      intro b hb
      simpa using ih hRest b hb

end Peels

/-- The fronts that a ranking of rows has to have, up to the order inside the fronts. With
preference the first front is set apart, and the others are peeled from what is left. -/
structure Layering (rows : Rows) (width : ℕ) (preference : Bool) (layers : List (List ℕ)) :
    Prop where
  nonempty : ∀ layer ∈ layers, layer ≠ []
  /-- Every position is in one layer, once. -/
  partition : layers.flatten.Perm (List.range rows.size)
  preferred : preference = true → ∀ i, i ∈ layers.getD 0 [] ↔
    ∃ objective, objective < width ∧ IsFirstBest rows objective i
  /-- A layer is made of what nothing outside the earlier layers dominates. -/
  peeled : ∀ r, r < layers.length → (preference = true → 0 < r) → ∀ i,
    i ∈ layers.getD r [] ↔ i < rows.size ∧ i ∉ (layers.take r).flatten ∧
      ∀ j, j < rows.size → j ∉ (layers.take r).flatten → ¬Beats rows j i
  dominated : ∀ r, r + 1 < layers.length → (preference = true → 0 < r) →
    ∀ i ∈ layers.getD (r + 1) [], ∃ j ∈ layers.getD r [], Beats rows j i

theorem flatten_take_succ (layers : List (List ℕ)) (r : ℕ) :
    (layers.take (r + 1)).flatten = (layers.take r).flatten ++ layers.getD r [] := by
  induction layers generalizing r with
  | nil => simp
  | cons layer layers ih =>
      cases r with
      | zero => simp
      | succ r => simpa using ih r

/-- What is peeled one layer later is dominated by a row of the layer before it. -/
theorem dominated_of_peeled {rows : Rows} {layers : List (List ℕ)} {r : ℕ}
    (hHere : ∀ i, i ∈ layers.getD r [] ↔ i < rows.size ∧ i ∉ (layers.take r).flatten ∧
      ∀ j, j < rows.size → j ∉ (layers.take r).flatten → ¬Beats rows j i)
    (hNext : ∀ i, i ∈ layers.getD (r + 1) [] ↔
      i < rows.size ∧ i ∉ (layers.take (r + 1)).flatten ∧
        ∀ j, j < rows.size → j ∉ (layers.take (r + 1)).flatten → ¬Beats rows j i) :
    ∀ i ∈ layers.getD (r + 1) [], ∃ j ∈ layers.getD r [], Beats rows j i := by
  intro i hi
  obtain ⟨hSize, hNew, hFree⟩ := (hNext i).mp hi
  rw [flatten_take_succ, List.mem_append, not_or] at hNew
  by_contra hNone
  refine hNew.2 ((hHere i).mpr ⟨hSize, hNew.1, ?_⟩)
  intro j hj hLeft hBeats
  refine hFree j hj ?_ hBeats
  rw [flatten_take_succ, List.mem_append, not_or]
  exact ⟨hLeft, fun hMem => hNone ⟨j, hMem, hBeats⟩⟩

section Numeric

variable {rows : Rows} {width : ℕ} {preference : Bool} {fronts : List (List ℕ)}

theorem getD_mem {a : ℕ} (ha : a < rows.size) : rows.getD a [] ∈ rows := by
  simp [ha]

theorem not_beats_self (a : ℕ) : ¬Beats rows a a := by
  rw [Beats, dominates_irrefl]
  exact Bool.false_ne_true

/-- Among numeric rows of one length, beating is transitive. -/
theorem beats_trans (hNumeric : ∀ row ∈ rows, IsNumeric row)
    (hLength : ∀ row ∈ rows, row.length = width) {a b c : ℕ} (ha : a < rows.size)
    (hb : b < rows.size) (hc : c < rows.size) (hab : Beats rows a b) (hbc : Beats rows b c) :
    Beats rows a c := by
  have hRow : ∀ {i}, i < rows.size → rows.getD i [] ∈ rows := fun hi => getD_mem hi
  refine dominates_trans (hNumeric _ (hRow ha)) (hNumeric _ (hRow hb)) (hNumeric _ (hRow hc))
    ?_ ?_ hab hbc
  · rw [hLength _ (hRow ha), hLength _ (hRow hb)]
  · rw [hLength _ (hRow hb), hLength _ (hRow hc)]

def aside (rows : Rows) (width : ℕ) (preference : Bool) : List (List ℕ) :=
  if preference then [preferred rows width] else []

theorem lt_of_mem_aside {i : ℕ} (h : i ∈ (aside rows width preference).flatten) :
    i < rows.size := by
  unfold aside at h
  split at h
  · rw [List.flatten_singleton, preferred, List.mem_filter, List.mem_range] at h
    exact h.1
  · cases h

theorem ascending_aside :
    ∀ layer ∈ aside rows width preference, layer.Pairwise (· < ·) := by
  unfold aside
  split
  · exact List.forall_mem_singleton.mpr (List.pairwise_lt_range.filter _)
  · exact nofun

theorem nodup_aside : (aside rows width preference).flatten.Nodup := by
  unfold aside
  split
  · rw [List.flatten_singleton]
    exact List.nodup_range.filter _
  · exact List.nodup_nil

/-- Numeric rows are peeled off completely, so what is set aside and the fronts make up all of them.
-/
theorem partition_of_peels (hNumeric : ∀ row ∈ rows, IsNumeric row)
    (hLength : ∀ row ∈ rows, row.length = width)
    (h : Peels (Beats rows) (· < rows.size) (aside rows width preference).flatten fronts) :
    (aside rows width preference ++ fronts).flatten.Perm (List.range rows.size) := by
  have hCovers := h.covers (fun _ ha => ha) not_beats_self
    fun _ _ _ ha hb hc => beats_trans hNumeric hLength ha hb hc
  rw [List.flatten_append]
  refine (List.perm_ext_iff_of_nodup (h.nodup nodup_aside) List.nodup_range).mpr ?_
  intro i
  rw [List.mem_range]
  refine ⟨fun hMem => ?_, hCovers i⟩
  rcases List.mem_append.mp hMem with hAside | hFront
  · exact lt_of_mem_aside hAside
  · exact h.pool_of_mem i hFront

/-- What is peeled from the rows behind the preferred ones makes a layering with them. -/
theorem layering_of_peels (hNumeric : ∀ row ∈ rows, IsNumeric row)
    (hLength : ∀ row ∈ rows, row.length = width) (hRows : 0 < rows.size) (hWidth : 0 < width)
    (h : Peels (Beats rows) (· < rows.size) (aside rows width preference).flatten fronts) :
    Layering rows width preference (aside rows width preference ++ fronts) := by
  have hPeeled : ∀ r, r < (aside rows width preference ++ fronts).length →
      (preference = true → 0 < r) → ∀ i,
      i ∈ (aside rows width preference ++ fronts).getD r [] ↔ i < rows.size ∧
        i ∉ ((aside rows width preference ++ fronts).take r).flatten ∧
        ∀ j, j < rows.size → j ∉ ((aside rows width preference ++ fronts).take r).flatten →
          ¬Beats rows j i := by
    intro r hr hLater i
    cases preference with
    | false => simpa [aside] using h.mem_getD (by simpa [aside] using hr) i
    | true =>
        cases r with
        | zero => exact absurd (hLater rfl) (Nat.lt_irrefl 0)
        | succ r => simpa [aside] using h.mem_getD (by simpa [aside] using hr) i
  refine ⟨?_, partition_of_peels hNumeric hLength h, ?_, hPeeled, ?_⟩
  · intro layer hMem
    rcases List.mem_append.mp hMem with hAside | hFront
    · unfold aside at hAside
      split at hAside
      · rw [List.mem_singleton.mp hAside]
        exact preferred_ne_nil hNumeric hRows hWidth
      · cases hAside
    · exact h.ne_nil layer hFront
  · rintro rfl i
    exact mem_preferred hNumeric hRows
  · intro r hr hLater
    exact dominated_of_peeled (hPeeled r (by omega) hLater)
      (hPeeled (r + 1) hr fun _ => Nat.succ_pos r)

end Numeric

/-- Sorting a pool is peeling it, under the names that its members have among all rows. -/
theorem ofPool_peels (rows : Rows) {pool : List ℕ} (hAscending : pool.Pairwise (· < ·)) :
    ∃ fronts, ofPool rows pool = .ok fronts ∧ Peels (Beats rows) (· ∈ pool) [] fronts := by
  obtain ⟨fronts, hFronts, -, hPeels⟩ := ofRows_sorts (pool.map fun i => rows.getD i []).toArray
  simp only [List.size_toArray, List.length_map] at hPeels
  refine ⟨fronts.map fun front => front.map fun a => pool.getD a 0, ?_, ?_⟩
  · simp only [ofPool, hFronts]
    rfl
  · refine hPeels.map (fun a => pool.getD a 0) ?_ ?_ ?_ nofun
    · intro i
      rw [List.mem_iff_getElem]
      constructor
      · rintro ⟨a, ha, rfl⟩
        exact ⟨a, ha, List.getD_eq_getElem _ _ ha⟩
      · rintro ⟨a, ha, rfl⟩
        exact ⟨a, ha, (List.getD_eq_getElem _ _ ha).symm⟩
    · intro a b ha hb hLess
      rw [List.getD_eq_getElem _ _ ha, List.getD_eq_getElem _ _ hb]
      exact List.pairwise_iff_getElem.mp hAscending a b ha hb hLess
    · intro a b ha hb
      simp [Beats, ha, hb]

section Reorder

variable {layers fronts : List (List ℕ)}

theorem perm_flatten (h : List.Forall₂ List.Perm layers fronts) :
    layers.flatten.Perm fronts.flatten := by
  induction h with
  | nil => exact List.Perm.nil
  | cons hFirst _ ih => exact hFirst.append ih

theorem perm_getD (h : List.Forall₂ List.Perm layers fronts) (r : ℕ) :
    (layers.getD r []).Perm (fronts.getD r []) := by
  induction h generalizing r with
  | nil => exact List.Perm.refl _
  | cons hFirst _ ih =>
      cases r with
      | zero => exact hFirst
      | succ r => exact ih r

/-- The order inside the layers does not matter. -/
theorem Layering.reorder {rows : Rows} {width : ℕ} {preference : Bool}
    (h : Layering rows width preference layers) (hPerm : List.Forall₂ List.Perm layers fronts) :
    Layering rows width preference fronts := by
  have hGet : ∀ r i, i ∈ fronts.getD r [] ↔ i ∈ layers.getD r [] :=
    fun r i => (perm_getD hPerm r).symm.mem_iff
  have hTake : ∀ r i, i ∈ (fronts.take r).flatten ↔ i ∈ (layers.take r).flatten :=
    fun r i => (perm_flatten (List.forall₂_take r hPerm)).symm.mem_iff
  have hLength : fronts.length = layers.length := hPerm.length_eq.symm
  refine ⟨?_, (perm_flatten hPerm).symm.trans h.partition, ?_, ?_, ?_⟩
  · intro front hMem
    obtain ⟨r, hr, rfl⟩ := List.mem_iff_getElem.mp hMem
    have hLayer := perm_getD hPerm r
    rw [List.getD_eq_getElem _ _ hr, List.getD_eq_getElem _ _ (hLength ▸ hr)] at hLayer
    exact fun hNil => h.nonempty _ (List.getElem_mem _) (hNil ▸ hLayer).eq_nil
  · intro hPreference i
    rw [hGet, h.preferred hPreference i]
  · intro r hr hLater i
    simp only [hGet, hTake, h.peeled r (hLength ▸ hr) hLater i]
  · intro r hr hLater i hi
    simp only [hGet] at hi ⊢
    exact h.dominated r (hLength ▸ hr) hLater i hi

end Reorder

end WitnessSearch.Fronts
