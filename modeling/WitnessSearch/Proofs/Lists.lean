import Mathlib.Data.List.Forall2
import Mathlib.Data.List.Nodup

/-! Facts about lists that belong to no part of the search: separated and exchanged pieces, looking
up in an association list and lists that are related member by member. -/

namespace WitnessSearch

variable {α β γ : Type}

theorem intercalate_cons (separator first : List α) (rest : List (List α)) :
    separator.intercalate (first :: rest) = first ++ rest.flatMap (separator ++ ·) := by
  induction rest generalizing first with
  | nil => simp
  | cons next rest ih =>
      rw [List.intercalate_cons_cons, ih next]
      simp

/-- Whatever stands in a separated text stands in the separator or in one of the parts. -/
theorem mem_intercalate {separator : List α} {xs : List (List α)} {a : α}
    (h : a ∈ separator.intercalate xs) : a ∈ separator ∨ ∃ x ∈ xs, a ∈ x := by
  cases xs with
  | nil => cases h
  | cons first rest =>
      rw [intercalate_cons, List.mem_append, List.mem_flatMap] at h
      rcases h with hFirst | ⟨x, hx, hMem⟩
      · exact .inr ⟨first, List.mem_cons_self, hFirst⟩
      · rcases List.mem_append.mp hMem with hSeparator | hMem
        · exact .inl hSeparator
        · exact .inr ⟨x, List.mem_cons_of_mem first hx, hMem⟩

/-- What lies behind a cut in each of two lists has changed sides. Together they hold what they held
before. -/
theorem perm_exchange (xs ys : List α) (i j : Nat) :
    ((xs.take i ++ ys.drop j) ++ (ys.take j ++ xs.drop i)).Perm (xs ++ ys) := by
  have hBehind : (ys.drop j ++ (ys.take j ++ xs.drop i)).Perm (xs.drop i ++ ys) := by
    rw [← List.append_assoc]
    have hWhole : (ys.drop j ++ ys.take j).Perm ys := by
      have hTurned : (ys.drop j ++ ys.take j).Perm (ys.take j ++ ys.drop j) :=
        List.perm_append_comm
      rwa [List.take_append_drop] at hTurned
    exact List.perm_append_comm.trans (hWhole.append_left _)
  calc (xs.take i ++ ys.drop j) ++ (ys.take j ++ xs.drop i)
      = xs.take i ++ (ys.drop j ++ (ys.take j ++ xs.drop i)) := List.append_assoc _ _ _
    List.Perm _ (xs.take i ++ (xs.drop i ++ ys)) := hBehind.append_left _
    _ = xs ++ ys := by rw [← List.append_assoc, List.take_append_drop]

section Separated

variable {c : α} {separator : List α}

/-- Up to the first `c`, or up to the end if there is none, two lists agree if they agree at all. -/
theorem append_inj_of_notMem {before before' after after' : List α} (h : c ∉ before)
    (h' : c ∉ before') (hAfter : ∀ a ∈ after.head?, a = c) (hAfter' : ∀ a ∈ after'.head?, a = c)
    (hSame : before ++ after = before' ++ after') : before = before' ∧ after = after' := by
  rcases List.append_eq_append_iff.mp hSame with ⟨more, rfl, rfl⟩ | ⟨more, rfl, rfl⟩
  · cases more with
    | nil => simp
    | cons a more =>
        obtain rfl := hAfter a rfl
        exact absurd (List.mem_append_right before List.mem_cons_self) h'
  · cases more with
    | nil => simp
    | cons a more =>
        obtain rfl := hAfter' a rfl
        exact absurd (List.mem_append_right before' List.mem_cons_self) h

/-- Parts that begin with a character found in none of them can be told apart again. -/
theorem eq_of_flatMap_eq {xs ys : List (List α)} (hx : ∀ x ∈ xs, c ∉ x) (hy : ∀ y ∈ ys, c ∉ y)
    (h : xs.flatMap (c :: separator ++ ·) = ys.flatMap (c :: separator ++ ·)) : xs = ys := by
  have hHead : ∀ zs : List (List α), ∀ a ∈ (zs.flatMap (c :: separator ++ ·)).head?, a = c := by
    intro zs a ha
    cases zs with
    | nil => cases ha
    | cons z zs => exact (Option.some.inj ha).symm
  induction xs generalizing ys with
  | nil =>
      cases ys with
      | nil => rfl
      | cons y ys => cases h
  | cons x xs ih =>
      cases ys with
      | nil => cases h
      | cons y ys =>
          rw [List.flatMap_cons, List.flatMap_cons, List.append_assoc, List.append_assoc] at h
          obtain ⟨rfl, hRest⟩ := append_inj_of_notMem (hx x List.mem_cons_self)
            (hy y List.mem_cons_self) (hHead xs) (hHead ys) (List.append_cancel_left h)
          rw [ih (fun x hMem => hx x (List.mem_cons_of_mem _ hMem))
            (fun y hMem => hy y (List.mem_cons_of_mem _ hMem)) hRest]

/-- Lists are known from their intercalation if the separator begins with what is in none of them
and none is empty. -/
theorem eq_of_intercalate_eq {xs ys : List (List α)} (hx : ∀ x ∈ xs, x ≠ [] ∧ c ∉ x)
    (hy : ∀ y ∈ ys, y ≠ [] ∧ c ∉ y)
    (h : (c :: separator).intercalate xs = (c :: separator).intercalate ys) : xs = ys := by
  cases xs with
  | nil =>
      cases ys with
      | nil => rfl
      | cons y ys =>
          rw [intercalate_cons] at h
          exact absurd (List.append_eq_nil_iff.mp h.symm).1 (hy y List.mem_cons_self).1
  | cons x xs =>
      rw [intercalate_cons] at h
      cases ys with
      | nil => exact absurd (List.append_eq_nil_iff.mp h).1 (hx x List.mem_cons_self).1
      | cons y ys =>
          rw [intercalate_cons] at h
          have hBoth : (x :: xs).flatMap (c :: separator ++ ·) =
              (y :: ys).flatMap (c :: separator ++ ·) := by
            rw [List.flatMap_cons, List.flatMap_cons, List.append_assoc, List.append_assoc, h]
          exact eq_of_flatMap_eq (fun x hMem => (hx x hMem).2) (fun y hMem => (hy y hMem).2) hBoth

end Separated

/-- What is found in a list of a list of lists is found in a list that is there. -/
theorem exists_of_getElem?_getD {xss : List (List α)} {i j : Nat} {x : α}
    (h : (xss.getD i [])[j]? = some x) : ∃ xs, xss[i]? = some xs ∧ xs[j]? = some x := by
  rw [List.getD_eq_getElem?_getD] at h
  cases hFound : xss[i]? with
  | none => simp [hFound] at h
  | some xs => exact ⟨xs, rfl, by simpa [hFound] using h⟩

section Lookup

variable {κ : Type} [BEq κ] [LawfulBEq κ]

/-- An entry is found by its key if all entries with the key agree. -/
theorem lookup_of_agree {entries : List (κ × α)} {key : κ} {a : α} (hMem : (key, a) ∈ entries)
    (hSame : ∀ b, (key, b) ∈ entries → b = a) : entries.lookup key = some a := by
  induction entries with
  | nil => cases hMem
  | cons entry rest ih =>
      obtain ⟨next, first⟩ := entry
      rw [List.lookup_cons]
      by_cases hFirst : key = next
      · subst hFirst
        rw [beq_self_eq_true, hSame first List.mem_cons_self]
      · rw [beq_eq_false_iff_ne.mpr hFirst]
        rcases List.mem_cons.mp hMem with hHere | hLater
        · cases hHere
          exact absurd rfl hFirst
        · exact ih hLater fun b hb => hSame b (List.mem_cons_of_mem _ hb)

/-- An entry is found by its key if no other has the key. -/
theorem lookup_of_mem {entries : List (κ × α)} (h : (entries.map (·.1)).Nodup) {key : κ} {a : α}
    (hMem : (key, a) ∈ entries) : entries.lookup key = some a :=
  lookup_of_agree hMem fun _ hb =>
    congrArg Prod.snd (List.inj_on_of_nodup_map h hb hMem rfl)

omit [LawfulBEq κ] in
/-- Two lists of entries have the same lookups if they have them part by part. -/
theorem lookup_flatMap_congr {f g : γ → List (κ × α)} {key : κ} {xs : List γ}
    (h : ∀ x ∈ xs, (f x).lookup key = (g x).lookup key) :
    (xs.flatMap f).lookup key = (xs.flatMap g).lookup key := by
  induction xs with
  | nil => rfl
  | cons x xs ih =>
      rw [List.flatMap_cons, List.flatMap_cons, List.lookup_append, List.lookup_append,
        h x List.mem_cons_self, ih fun y hy => h y (List.mem_cons_of_mem x hy)]

/-- Looking up in a list of computed entries is finding the first member with the key. -/
theorem lookup_map (key : γ → κ) (f : γ → α) (xs : List γ) (k : κ) :
    (xs.map fun x => (key x, f x)).lookup k = (xs.find? (key · == k)).map f := by
  induction xs with
  | nil => rfl
  | cons x xs ih =>
      rw [List.map_cons, List.lookup_cons, List.find?_cons, ih]
      by_cases h : key x = k
      · simp [h]
      · rw [beq_eq_false_iff_ne.mpr h, beq_eq_false_iff_ne.mpr (Ne.symm h)]

end Lookup

section Related

variable {related : α → β → Prop} {xs : List α} {ys : List β}

theorem exists_left_of_related (h : List.Forall₂ related xs ys) {y : β} (hy : y ∈ ys) :
    ∃ x ∈ xs, related x y := by
  induction h with
  | nil => cases hy
  | cons hFirst _ ih =>
      rcases List.mem_cons.mp hy with rfl | hLater
      · exact ⟨_, List.mem_cons_self, hFirst⟩
      · obtain ⟨x, hx, hRelated⟩ := ih hLater
        exact ⟨x, List.mem_cons_of_mem _ hx, hRelated⟩

theorem exists_right_of_related (h : List.Forall₂ related xs ys) {x : α} (hx : x ∈ xs) :
    ∃ y ∈ ys, related x y :=
  exists_left_of_related (List.Forall₂.flip h) hx

/-- In two related lists, the members of the second one may be assumed to be in it. -/
theorem related_with_mem (h : List.Forall₂ related xs ys) :
    List.Forall₂ (fun x y => y ∈ ys ∧ related x y) xs ys := by
  obtain ⟨hLength, hAll⟩ := List.forall₂_iff_zip.mp h
  exact List.forall₂_iff_zip.mpr
    ⟨hLength, fun hMem => ⟨(List.of_mem_zip hMem).2, hAll hMem⟩⟩

/-- Two related lists can be combined member by member, and the first one is related to the result.
-/
theorem related_zipWith {combined : α → γ → Prop} {combine : α → β → γ}
    (h : List.Forall₂ related xs ys) (hCombine : ∀ x y, related x y → combined x (combine x y)) :
    List.Forall₂ combined xs (List.zipWith combine xs ys) := by
  induction h with
  | nil => exact .nil
  | cons hFirst _ ih => exact .cons (hCombine _ _ hFirst) ih

/-- What is the same of every two members is the same of the lists. -/
theorem map_eq_map_of_related {f : α → γ} {g : β → γ}
    (h : List.Forall₂ (fun x y => g y = f x) xs ys) : ys.map g = xs.map f := by
  induction h with
  | nil => rfl
  | cons hFirst _ ih => rw [List.map_cons, List.map_cons, hFirst, ih]

theorem eq_map_of_related {f : α → β} (h : List.Forall₂ (fun x y => y = f x) xs ys) :
    ys = xs.map f := by
  rw [← map_eq_map_of_related (g := id) h, List.map_id]

theorem map_eq_of_related {g : β → α} (h : List.Forall₂ (fun x y => g y = x) xs ys) :
    ys.map g = xs := by
  rw [map_eq_map_of_related (f := id) h, List.map_id]

theorem flatMap_eq_of_related {f : α → List γ} {g : β → List γ}
    (h : List.Forall₂ (fun x y => g y = f x) xs ys) : ys.flatMap g = xs.flatMap f := by
  induction h with
  | nil => rfl
  | cons hFirst _ ih => rw [List.flatMap_cons, List.flatMap_cons, hFirst, ih]

theorem any_eq_any_of_related {p : α → Bool} {q : β → Bool}
    (h : List.Forall₂ (fun x y => p x = q y) xs ys) : xs.any p = ys.any q := by
  induction h with
  | nil => rfl
  | cons hFirst _ ih => rw [List.any_cons, List.any_cons, hFirst, ih]

end Related

section Places

variable {xs ys : List α} {places : List Nat}

/-- What is found at places of a list is a member. -/
theorem subset_of_places (h : List.Forall₂ (fun i y => xs[i]? = some y) places ys) : ys ⊆ xs := by
  intro y hy
  obtain ⟨i, -, hFound⟩ := exists_left_of_related h hy
  exact List.mem_of_getElem? hFound

/-- What is found at all places of a list is the list in another order. -/
theorem perm_of_places (h : List.Forall₂ (fun i y => xs[i]? = some y) places ys)
    (hPlaces : places.Perm (List.range xs.length)) : ys.Perm xs := by
  have hFound : ys.map some = places.map (xs[·]?) :=
    map_eq_map_of_related (h.imp fun _ _ hOne => hOne.symm)
  have hAll : (List.range xs.length).map (xs[·]?) = xs.map some := by
    refine List.ext_getElem (by simp) fun i h₁ h₂ => ?_
    simp
  have hPerm : (ys.map some).Perm (xs.map some) := by
    rw [hFound, ← hAll]
    exact hPlaces.map _
  simpa [List.filterMap_map] using hPerm.filterMap id

end Places

end WitnessSearch
