import WitnessSearch.Proofs.Float.Arithmetic
import WitnessSearch.Proofs.Ranking.Exactness

/-! Crowding distances of rows of finite numbers that are not negative. A line is in ascending
order, so no gap of it is negative, and each is finite like the line itself. The distances are then
numbers, though they may be infinite, and every front can be ordered by them: such rows are always
ranked. -/

namespace WitnessSearch

open FloatRounding

/-- Every entry is a finite number that is not negative. -/
def IsMeasured (row : List Float) : Prop :=
  ∀ x ∈ row, ∃ v, HasValue x v

theorem IsMeasured.isNumeric {row : List Float} (h : IsMeasured row) : IsNumeric row := by
  intro x hx
  obtain ⟨v, hValue⟩ := h x hx
  exact hValue.isNaN

namespace Crowding

open Fronts

variable {rows : Rows}

/-- In measured rows every value is that of a number, also where an entry is missing. -/
theorem exists_value_value (h : ∀ row ∈ rows, IsMeasured row) (objective candidate : ℕ) :
    ∃ v, HasValue (value rows objective candidate) v := by
  unfold value
  rw [List.getD_eq_getElem?_getD]
  cases hEntry : ((rows.getD candidate [])[objective]?) with
  | none => exact ⟨0, hasValue_zero⟩
  | some x =>
      rw [Array.getD_eq_getD_getElem?] at hEntry
      cases hRow : rows[candidate]? with
      | none => simp [hRow] at hEntry
      | some row =>
          rw [hRow, Option.getD_some] at hEntry
          exact h row (Array.mem_of_getElem? hRow) x (List.mem_of_getElem? hEntry)

def Holds (property : ℕ → Float → Prop) (distances : Distances) : Prop :=
  ∀ (i : ℕ) (x : Float), distances[i]? = some x → property i x

/-- No distance is negative, and all of them are numbers. -/
def NoneNegative (distances : Distances) : Prop :=
  ∀ (i : ℕ) (x : Float), distances[i]? = some x → Nonnegative x

theorem nonnegative_infinite : Nonnegative infinite :=
  Or.inr rfl

section Holds

variable {property : ℕ → Float → Prop} {distances : Distances}

/-- A property of all distances survives setting one of them to what has the property. -/
theorem Holds.setIfInBounds (h : Holds property distances) {i : ℕ} {x : Float}
    (hx : property i x) : Holds property (distances.setIfInBounds i x) := by
  intro j y hy
  rw [Array.getElem?_setIfInBounds] at hy
  split at hy
  · rename_i hSame
    split at hy
    · cases hy
      exact hSame ▸ hx
    · cases hy
  · exact h j y hy

theorem Holds.modify (h : Holds property distances) {i : ℕ} {f : Float → Float}
    (hf : ∀ x, property i x → property i (f x)) : Holds property (distances.modify i f) := by
  intro j y hy
  rw [Array.getElem?_modify] at hy
  split at hy
  · rename_i hSame
    obtain ⟨x, hx, rfl⟩ := Option.map_eq_some_iff.mp hy
    subst hSame
    exact hf x (h i x hx)
  · exact h j y hy

theorem Holds.fill {front : List ℕ} {x : Float} (hx : ∀ i ∈ front, property i x)
    (h : Holds property distances) :
    Holds property (front.foldl (fun distances i => distances.setIfInBounds i x) distances) := by
  induction front generalizing distances with
  | nil => exact h
  | cons i front ih =>
      obtain ⟨hFirst, hRest⟩ := List.forall_mem_cons.mp hx
      exact ih hRest (h.setIfInBounds hFirst)

/-- The gaps of a line in order are added to the distances. -/
theorem Holds.addGaps {value : ℕ → Float} (hValues : ∀ i, ∃ v, HasValue (value i) v)
    {range : Float} {w : ℚ} (hRange : HasValue range w) (hPositive : 0 < w) {line : List ℕ}
    (hLine : line.Pairwise fun a b => ¬value b < value a)
    (hAdd : ∀ i ∈ line, ∀ x gap, property i x → Nonnegative gap → property i (x + gap))
    (h : Holds property distances) : Holds property (addGaps value range line distances) := by
  induction line generalizing distances with
  | nil => exact h
  | cons left line ih =>
      obtain ⟨hLeft, hRest⟩ := List.pairwise_cons.mp hLine
      obtain ⟨-, hAdd⟩ := List.forall_mem_cons.mp hAdd
      cases line with
      | nil => exact h
      | cons middle line =>
          cases line with
          | nil => exact h
          | cons right rest =>
              obtain ⟨_, hRight⟩ := hValues right
              obtain ⟨_, hLow⟩ := hValues left
              have hOrdered : ¬value right < value left :=
                hLeft right (List.mem_cons_of_mem _ List.mem_cons_self)
              obtain ⟨_, hGap⟩ := exists_value_sub hRight hLow hOrdered
              refine ih hRest hAdd (h.modify fun x hx => ?_)
              exact hAdd middle List.mem_cons_self x _ hx (hGap.nonnegative.div hRange hPositive)

end Holds

/-- What the distances of some candidates keep, whatever is done with them. -/
structure Absorbs (property : ℕ → Float → Prop) (members : List ℕ) : Prop where
  infinite : ∀ i ∈ members, property i infinite
  add : ∀ i ∈ members, ∀ x gap, property i x → Nonnegative gap → property i (x + gap)

/-- The order of the members does not matter to what a property absorbs. -/
theorem Absorbs.perm {property : ℕ → Float → Prop} {members members' : List ℕ}
    (h : Absorbs property members) (hPerm : members'.Perm members) : Absorbs property members' where
  infinite i hi := h.infinite i (hPerm.subset hi)
  add i hi := h.add i (hPerm.subset hi)

/-- On one objective a member of a front that none is below and one that none is above are
infinitely far. -/
structure KeepsEnds (value : ℕ → Float) (distances : Distances) (front : List ℕ) : Prop where
  least : ∃ i ∈ front, distances[i]? = some infinite ∧ ∀ j ∈ front, ¬value j < value i
  greatest : ∃ i ∈ front, distances[i]? = some infinite ∧ ∀ j ∈ front, ¬value i < value j

/-- What lining a front up by an objective comes to. -/
structure Spreads (value : ℕ → Float) (line : List ℕ) (distances : Distances) (line' : List ℕ)
    (distances' : Distances) : Prop where
  perm : line'.Perm line
  size : distances'.size = distances.size
  holds : ∀ property, Absorbs property line → Holds property distances →
    Holds property distances'
  ends : line ≠ [] → (∀ i ∈ line, i < distances.size) → KeepsEnds value distances' line

theorem infinite_add {x : Float} (h : Nonnegative x) : infinite + x = infinite := by
  have hSum : (infinite + x).toModel = .pack (Float.Model.UnpackedFloat.add
      Float.Model.Format.binary64 (.infinity .positive) x.toModel.unpack) := rfl
  have hSame : (infinite + x).toModel = infinite.toModel := by
    rcases h with ⟨v, parts, hParts, hMeasures⟩ | hInfinity
    · rw [hSum, hParts]
      cases hMeasures <;> rfl
    · rw [hSum, hInfinity]
      rfl
  exact congrArg Float.ofModel hSame

/-- A candidate that is infinitely far stays so. -/
theorem absorbs_infinite (i : ℕ) (members : List ℕ) :
    Absorbs (fun j x => j = i → x = infinite) members where
  infinite _ _ _ := rfl
  add _ _ _ _ hx hGap hj := by
    rw [hx hj]
    exact infinite_add hGap

/-- The distance of a candidate elsewhere stays as it is. -/
theorem absorbs_elsewhere {i : ℕ} {members : List ℕ} (h : i ∉ members) (x : Float) :
    Absorbs (fun j y => j = i → y = x) members where
  infinite _ hj hSame := absurd (hSame ▸ hj) h
  add _ hj _ _ _ _ hSame := absurd (hSame ▸ hj) h

/-- Not being negative is kept by infinities and by sums of gaps. -/
theorem absorbs_nonnegative (members : List ℕ) :
    Absorbs (fun _ x => Nonnegative x) members where
  infinite _ _ := nonnegative_infinite
  add _ _ _ _ hx hGap := hx.add hGap

theorem holds_at {distances : Distances} {i : ℕ} {x : Float} (h : distances[i]? = some x) :
    Holds (fun j y => j = i → y = x) distances := by
  intro j y hy hSame
  rw [hSame, h] at hy
  exact (Option.some.inj hy).symm

theorem Holds.getElem? {distances : Distances} {i : ℕ} {x : Float}
    (h : Holds (fun j y => j = i → y = x) distances) (hBound : i < distances.size) :
    distances[i]? = some x := by
  rw [Array.getElem?_eq_getElem hBound]
  exact congrArg some (h i _ (Array.getElem?_eq_getElem hBound) rfl)

theorem size_addGaps (value : ℕ → Float) (range : Float) (line : List ℕ)
    (distances : Distances) : (addGaps value range line distances).size = distances.size := by
  have hSame : Agree distances.size [] distances distances := ⟨rfl, rfl, nofun⟩
  exact (hSame.addGaps value range line).size

section Line

variable {value : ℕ → Float} {property : ℕ → Float → Prop} {line sorted : List ℕ}
  {first last : ℕ} {distances : Distances}

def withEnds (first last : ℕ) (distances : Distances) : Distances :=
  (distances.setIfInBounds first infinite).setIfInBounds last infinite

@[simp] theorem size_withEnds : (withEnds first last distances).size = distances.size := by
  simp [withEnds]

theorem getElem?_withEnds_first (h : first < distances.size) :
    (withEnds first last distances)[first]? = some infinite := by
  by_cases hSame : last = first <;> simp [withEnds, hSame, h]

theorem getElem?_withEnds_last (h : last < distances.size) :
    (withEnds first last distances)[last]? = some infinite := by
  simp [withEnds, h]

/-- Both ends may become infinite, if the property absorbs infinities. -/
theorem Holds.withEnds (h : Holds property distances) (hProperty : Absorbs property line)
    (hFirst : first ∈ line) (hLast : last ∈ line) : Holds property (withEnds first last distances) :=
  (h.setIfInBounds (hProperty.infinite first hFirst)).setIfInBounds (hProperty.infinite last hLast)

/-- The distances with the gaps of a line added, unless its ends are level. -/
def withGaps (value : ℕ → Float) (first last : ℕ) (line : List ℕ) (distances : Distances) :
    Distances :=
  if 0.0 < value last - value first then addGaps value (value last - value first) line distances
  else distances

@[simp] theorem size_withGaps :
    (withGaps value first last line distances).size = distances.size := by
  unfold withGaps
  split
  · exact size_addGaps _ _ _ _
  · rfl

/-- The gaps may be added, if the line is in order. Every gap is then not negative. -/
theorem Holds.withGaps (h : Holds property distances) (hProperty : Absorbs property line)
    (hValues : ∀ i, ∃ v, HasValue (value i) v) (hLine : line.Pairwise fun a b => ¬value b < value a)
    (hEnds : ¬value last < value first) :
    Holds property (withGaps value first last line distances) := by
  unfold Crowding.withGaps
  split
  · rename_i hRange
    obtain ⟨v, hv⟩ := hValues first
    obtain ⟨w, hw⟩ := hValues last
    obtain ⟨u, hu⟩ := exists_value_sub hw hv hEnds
    exact h.addGaps hValues hu ((hasValue_zero.lt_iff hu).mp hRange) hLine hProperty.add
  · exact h

/-- A line in ascending order has its least member at one end and its greatest at the other. -/
theorem spreads_sorted (hValues : ∀ i, ∃ v, HasValue (value i) v) (hPerm : sorted.Perm line)
    (hSorted : sorted.Pairwise fun a b => ¬value b < value a) (hFirst : sorted.head? = some first)
    (hLast : sorted.getLast? = some last) :
    Spreads value line distances sorted
      (withGaps value first last sorted (withEnds first last distances)) := by
  have hNumber : ∀ i, (value i).isNaN = false := fun i => (hValues i).elim fun _ hv => hv.isNaN
  have hFirstMem : first ∈ line := hPerm.subset (List.mem_of_mem_head? hFirst)
  have hLastMem : last ∈ line := hPerm.subset (List.mem_of_getLast? hLast)
  have hLeast : ∀ j ∈ line, ¬value j < value first := fun j hj =>
    not_lt_head hNumber hSorted hFirst j (hPerm.symm.subset hj)
  have hGreatest : ∀ j ∈ line, ¬value last < value j := fun j hj =>
    not_last_lt hNumber hSorted hLast j (hPerm.symm.subset hj)
  have hGaps : ∀ property, Absorbs property line → Holds property (withEnds first last distances) →
      Holds property (withGaps value first last sorted (withEnds first last distances)) :=
    fun property hProperty hEnded =>
      hEnded.withGaps (hProperty.perm hPerm) hValues hSorted (hLeast last hLastMem)
  refine ⟨hPerm, by simp, fun property hProperty h => ?_, fun _ hBound => ?_⟩
  · exact hGaps property hProperty (h.withEnds hProperty hFirstMem hLastMem)
  · -- What is infinitely far before the gaps are added is so afterwards.
    have hKept : ∀ i ∈ line, (withEnds first last distances)[i]? = some infinite →
        (withGaps value first last sorted (withEnds first last distances))[i]? = some infinite :=
      fun i hi hEnd => (hGaps _ (absorbs_infinite i line) (holds_at hEnd)).getElem?
        (by simpa using hBound i hi)
    exact {
      least := ⟨first, hFirstMem,
        hKept first hFirstMem (getElem?_withEnds_first (hBound first hFirstMem)), hLeast⟩
      greatest := ⟨last, hLastMem,
        hKept last hLastMem (getElem?_withEnds_last (hBound last hLastMem)), hGreatest⟩ }

end Line

/-- Spreading one objective goes well on measured rows, and is the sorting, the ends and the gaps.
-/
theorem exists_spread_spec (hMeasured : ∀ row ∈ rows, IsMeasured row) (line : List ℕ)
    (distances : Distances) (objective : ℕ) :
    ∃ line' distances', spread rows (line, distances) objective = .ok (line', distances') ∧
      Spreads (value rows objective) line distances line' distances' := by
  have hNumber := isNaN_value (fun row hRow => (hMeasured row hRow).isNumeric) objective
  have hSort := sortByKey_of_numeric (· < ·) (value rows objective) line fun i _ => hNumber i
  have hSorted := ascending_stableSort hNumber line
  have hPerm := perm_stableSort
    (fun a b => decide (value rows objective a < value rows objective b)) line
  generalize stableSort _ line = sorted at hSort hSorted hPerm
  simp only [spread, hSort, ok_bind]
  split
  · rename_i first last hFirst hLast
    exact ⟨sorted, _, rfl,
      spreads_sorted (exists_value_value hMeasured objective) hPerm hSorted hFirst hLast⟩
  · rename_i hNone
    have hEmpty : sorted = [] := by
      cases sorted with
      | nil => rfl
      | cons x xs =>
          exact (hNone x _ rfl (List.getLast?_eq_some_getLast (List.cons_ne_nil x xs))).elim
    subst hEmpty
    exact ⟨[], distances, rfl, hPerm, rfl, fun _ _ h => h,
      fun hSome => absurd hPerm.nil_eq.symm hSome⟩

/-- What setting the distances of a front comes to. -/
structure Assigns (rows : Rows) (width : ℕ) (front : List ℕ) (distances distances' : Distances) :
    Prop where
  size : distances'.size = distances.size
  holds : ∀ property, Absorbs property front → (∀ i ∈ front, property i 0.0) →
    Holds property distances → Holds property distances'
  ends : front ≠ [] → (∀ i ∈ front, i < distances.size) → ∀ objective, objective < width →
    KeepsEnds (value rows objective) distances' front

theorem KeepsEnds.perm {value : ℕ → Float} {distances : Distances} {front front' : List ℕ}
    (h : KeepsEnds value distances front) (hPerm : front.Perm front') :
    KeepsEnds value distances front' where
  least := by
    obtain ⟨i, hi, hEnd, hLeast⟩ := h.least
    exact ⟨i, hPerm.subset hi, hEnd, fun j hj => hLeast j (hPerm.symm.subset hj)⟩
  greatest := by
    obtain ⟨i, hi, hEnd, hGreatest⟩ := h.greatest
    exact ⟨i, hPerm.subset hi, hEnd, fun j hj => hGreatest j (hPerm.symm.subset hj)⟩

/-- The ends of a front only depend on the distances of its members. -/
theorem KeepsEnds.congr {value : ℕ → Float} {distances distances' : Distances} {front : List ℕ}
    (h : KeepsEnds value distances front)
    (hKept : ∀ i ∈ front, distances[i]? = some infinite → distances'[i]? = some infinite) :
    KeepsEnds value distances' front where
  least := by
    obtain ⟨i, hi, hEnd, hLeast⟩ := h.least
    exact ⟨i, hi, hKept i hi hEnd, hLeast⟩
  greatest := by
    obtain ⟨i, hi, hEnd, hGreatest⟩ := h.greatest
    exact ⟨i, hi, hKept i hi hEnd, hGreatest⟩

/-- The lines are made one from the other. What is infinitely far after one of them stays so. -/
theorem exists_spreads_spec (hMeasured : ∀ row ∈ rows, IsMeasured row) (objectives line : List ℕ)
    (distances : Distances) :
    ∃ line' distances',
      objectives.foldlM (spread rows) (line, distances) = .ok (line', distances') ∧
      distances'.size = distances.size ∧
      (∀ property, Absorbs property line → Holds property distances →
        Holds property distances') ∧
      (line ≠ [] → (∀ i ∈ line, i < distances.size) → ∀ objective ∈ objectives,
        KeepsEnds (value rows objective) distances' line) := by
  induction objectives generalizing line distances with
  | nil => exact ⟨line, distances, rfl, rfl, fun _ _ h => h, fun _ _ => nofun⟩
  | cons objective objectives ih =>
      obtain ⟨line', middle, hSpread, hSpreads⟩ :=
        exists_spread_spec hMeasured line distances objective
      obtain ⟨line'', distances', hRun, hSize, hHolds, hEnds⟩ := ih line' middle
      refine ⟨line'', distances', ?_, hSize.trans hSpreads.size, ?_, ?_⟩
      · rw [List.foldlM_cons, hSpread]
        exact hRun
      · exact fun property hProperty h =>
          hHolds property (hProperty.perm hSpreads.perm) (hSpreads.holds property hProperty h)
      · intro hSome hBound other hOther
        rcases List.mem_cons.mp hOther with rfl | hLater
        · refine (hSpreads.ends hSome hBound).congr fun i hi hEnd => ?_
          refine (hHolds _ (absorbs_infinite i line') (holds_at hEnd)).getElem? ?_
          rw [hSize, hSpreads.size]
          exact hBound i hi
        · have hSome' : line' ≠ [] := fun hNone => hSome (hNone ▸ hSpreads.perm).nil_eq.symm
          have hBound' : ∀ i ∈ line', i < middle.size := fun i hi =>
            hSpreads.size ▸ hBound i (hSpreads.perm.subset hi)
          exact (hEnds hSome' hBound' other hLater).perm hSpreads.perm

theorem getElem?_fill {distances : Distances} {front : List ℕ} {i : ℕ} (hi : i ∈ front)
    (hBound : i < distances.size) (x : Float) :
    (front.foldl (fun distances i => distances.setIfInBounds i x) distances)[i]? = some x := by
  have hAgree := agree_fill (d := distances) (e := Array.replicate distances.size x) rfl
    Array.size_replicate x front
  have hAll : Holds (fun _ y => y = x) (front.foldl
      (fun distances i => distances.setIfInBounds i x) (Array.replicate distances.size x)) := by
    refine Holds.fill (fun _ _ => rfl) fun j y hy => ?_
    rw [Array.getElem?_replicate] at hy
    split at hy
    · exact (Option.some.inj hy).symm
    · cases hy
  rw [hAgree.entries i hi, Array.getElem?_eq_getElem (hAgree.size'.symm ▸ hBound)]
  exact congrArg some (hAll i _ (Array.getElem?_eq_getElem _))

/-- Setting the distances of a front never fails. A front of two members only has ends. -/
theorem exists_assign_spec (hMeasured : ∀ row ∈ rows, IsMeasured row) (width : ℕ)
    (front : List ℕ) (distances : Distances) :
    ∃ distances', assign rows width distances front = .ok distances' ∧
      Assigns rows width front distances distances' := by
  unfold assign
  split
  · refine ⟨_, rfl, (agree_fill rfl rfl infinite front).size, ?_, ?_⟩
    · exact fun property hProperty _ h => h.fill hProperty.infinite
    · intro hSome hBound objective _
      have hNumber := isNaN_value (fun row hRow => (hMeasured row hRow).isNumeric) objective
      obtain ⟨first, last, hFirst, hLast, hLeast, hGreatest⟩ := exists_ends hNumber hSome
      exact {
        least := ⟨first, hFirst, getElem?_fill hFirst (hBound first hFirst) infinite, hLeast⟩
        greatest := ⟨last, hLast, getElem?_fill hLast (hBound last hLast) infinite, hGreatest⟩ }
  · obtain ⟨line, distances', hRun, hSize, hHolds, hEnds⟩ := exists_spreads_spec hMeasured
      (List.range width) front
      (front.foldl (fun distances i => distances.setIfInBounds i 0.0) distances)
    have hCleared := (agree_fill (d := distances) rfl rfl 0.0 front).size
    refine ⟨distances', by simp only [hRun, ok_bind]; rfl, hSize.trans hCleared, ?_, ?_⟩
    · exact fun property hProperty hZero h => hHolds property hProperty (h.fill hZero)
    · intro hSome hBound objective hObjective
      exact hEnds hSome (fun i hi => hCleared.symm ▸ hBound i hi) objective
        (List.mem_range.mpr hObjective)

theorem noneNegative_replicate (n : ℕ) : NoneNegative (Array.replicate n 0.0) := by
  intro i x hx
  rw [Array.getElem?_replicate] at hx
  split at hx
  · cases hx
    exact hasValue_zero.nonnegative
  · cases hx

theorem NoneNegative.getD {distances : Distances} (h : NoneNegative distances) (i : ℕ) :
    Nonnegative (distances.getD i 0.0) := by
  rw [Array.getD_eq_getD_getElem?]
  cases hEntry : distances[i]? with
  | none => exact hasValue_zero.nonnegative
  | some x => exact h i x hEntry

/-- Where none is negative none is missing a number. -/
theorem NoneNegative.isNaN_getD {distances : Distances} (h : NoneNegative distances) (i : ℕ) :
    (distances.getD i 0.0).isNaN = false :=
  (h.getD i).isNaN

/-- Assigning distances to a front leaves none of them negative. -/
theorem Assigns.noneNegative {width : ℕ} {front : List ℕ} {distances distances' : Distances}
    (hAssigns : Assigns rows width front distances distances') (h : NoneNegative distances) :
    NoneNegative distances' :=
  hAssigns.holds _ (absorbs_nonnegative front) (fun _ _ => hasValue_zero.nonnegative) h

/-- The distances of the other candidates stay as they are. -/
theorem Assigns.elsewhere {width : ℕ} {front : List ℕ} {distances distances' : Distances}
    (h : Assigns rows width front distances distances') {i : ℕ} (hi : i ∉ front) :
    distances'[i]? = distances[i]? := by
  by_cases hBound : i < distances.size
  · have hEntry : distances[i]? = some distances[i] := Array.getElem?_eq_getElem hBound
    have hKept := h.holds _ (absorbs_elsewhere hi distances[i])
      (fun j hj hSame => absurd (hSame ▸ hj) hi) (holds_at hEntry)
    rw [hEntry, hKept.getElem? (h.size.symm ▸ hBound)]
  · rw [Array.getElem?_eq_none (Nat.le_of_not_lt hBound),
      Array.getElem?_eq_none (h.size.symm ▸ Nat.le_of_not_lt hBound)]

/-- A front of finite rows can always be ordered. -/
theorem orderable_of_isMeasured (hMeasured : ∀ row ∈ rows, IsMeasured row) (width : ℕ)
    (front : List ℕ) : Orderable rows width front := by
  obtain ⟨distances, hRun, hAssigns⟩ := exists_assign_spec hMeasured width front
    (Array.replicate rows.size 0.0)
  have hNumbers := (hAssigns.noneNegative (noneNegative_replicate _)).isNaN_getD
  refine .inr ⟨distances, hRun, ?_⟩
  simp only [areOrdered, Bool.or_eq_true, List.all_eq_true, List.mem_map]
  refine .inl ?_
  rintro _ ⟨i, -, rfl⟩
  rw [hNumbers]
  rfl

end Crowding

namespace Ranking

theorem length_le_length_flatten {fronts : List (List ℕ)} (h : ∀ front ∈ fronts, front ≠ []) :
    fronts.length ≤ fronts.flatten.length := by
  induction fronts with
  | nil => exact Nat.le_refl 0
  | cons front fronts ih =>
      obtain ⟨hFront, hRest⟩ := List.forall_mem_cons.mp h
      have hSome := List.length_pos_iff.mpr hFront
      have hLater := ih hRest
      simp only [List.length_cons, List.flatten_cons, List.length_append]
      omega

/-- Finite rows of one length are always ranked, in no more fronts than there are rows. -/
theorem ofRows_of_isMeasured (preference : Bool) {rows : List (List Float)} {width : ℕ}
    (hLength : ∀ row ∈ rows, row.length = width) (hMeasured : ∀ row ∈ rows, IsMeasured row) :
    ∃ ranking, ofRows preference rows = .ok ranking ∧ ranking.fronts.length ≤ rows.length := by
  rcases Nat.eq_zero_or_pos rows.length with hNone | hSome
  · obtain rfl := List.length_eq_zero_iff.mp hNone
    exact ⟨_, rfl, Nat.le_refl _⟩
  have hRows : rows ≠ [] := List.length_pos_iff.mp hSome
  rcases Nat.eq_zero_or_pos width with rfl | hWidth
  · exact ⟨_, ofRows_of_width_zero preference hRows hLength, hSome⟩
  · obtain ⟨layers, hLayering, hAnswered, -⟩ := exists_layers_finished preference hRows hWidth
      hLength fun row hRow => (hMeasured row hRow).isNumeric
    have hMeasured' : ∀ row ∈ rows.toArray, IsMeasured row := by simpa using hMeasured
    obtain ⟨ranking, hRun, hPerms⟩ :=
      hAnswered fun layer _ => Crowding.orderable_of_isMeasured hMeasured' width layer
    have hFronts := hLayering.reorder hPerms
    refine ⟨ranking, hRun, ?_⟩
    have hTotal : ranking.fronts.flatten.length = rows.length := by
      simpa using hFronts.partition.length_eq
    rw [← hTotal]
    exact length_le_length_flatten hFronts.nonempty

end Ranking

end WitnessSearch
