import WitnessSearch.Proofs.Effects
import WitnessSearch.Proofs.Ranking.Preference
import WitnessSearch.Proofs.Ranking.Sorting
import WitnessSearch.Ranking.Basic

/-! Crowding distances and the order inside the fronts. Lining a front up never fails on rows of
numbers. Ordering it by the distances can: a distance need not be a number, and a long front is then
refused. The distances of a front do not depend on those of the other fronts, so it can be said of
each front by itself whether it will be refused. -/

namespace WitnessSearch

namespace Crowding

open Fronts

variable {rows : Rows}

/-- Numeric rows have numbers as their values, also where there is no entry. -/
theorem isNaN_value (h : ∀ row ∈ rows, IsNumeric row) (objective candidate : ℕ) :
    (value rows objective candidate).isNaN = false := by
  apply isNaN_getD
  intro x hx
  rw [Array.getD_eq_getD_getElem?] at hx
  cases hRow : rows[candidate]? with
  | none => simp [hRow] at hx
  | some row =>
      rw [hRow, Option.getD_some] at hx
      exact h row (Array.mem_of_getElem? hRow) x hx

/-- The distances of `n` candidates that agree on some of them. -/
structure Agree (n : ℕ) (members : List ℕ) (d e : Distances) : Prop where
  size : d.size = n
  size' : e.size = n
  entries : ∀ i ∈ members, d[i]? = e[i]?

variable {n : ℕ} {members : List ℕ} {d e : Distances}

theorem Agree.setIfInBounds (h : Agree n members d e) (i : ℕ) (x : Float) :
    Agree n members (d.setIfInBounds i x) (e.setIfInBounds i x) where
  size := by simpa using h.size
  size' := by simpa using h.size'
  entries j hj := by
    simp only [Array.getElem?_setIfInBounds, h.size, h.size', h.entries j hj]

theorem Agree.modify (h : Agree n members d e) (i : ℕ) (f : Float → Float) :
    Agree n members (d.modify i f) (e.modify i f) where
  size := by simpa using h.size
  size' := by simpa using h.size'
  entries j hj := by simp only [Array.getElem?_modify, h.entries j hj]

/-- Distances that agree on the members still do when the gaps are added. What is added does not
depend on them. -/
theorem Agree.addGaps (h : Agree n members d e) (value : ℕ → Float) (range : Float)
    (line : List ℕ) :
    Agree n members (addGaps value range line d) (addGaps value range line e) := by
  induction line generalizing d e with
  | nil => exact h
  | cons left line ih =>
      cases line with
      | nil => exact h
      | cons middle line =>
          cases line with
          | nil => exact h
          | cons right rest => exact ih (h.modify middle _)

/-- A line of numbers can always be made, and its gaps are added whatever the distances are. -/
theorem exists_spread (hNumeric : ∀ row ∈ rows, IsNumeric row) (h : Agree n members d e)
    (line : List ℕ) (objective : ℕ) :
    ∃ line' d' e', spread rows (line, d) objective = .ok (line', d') ∧
      spread rows (line, e) objective = .ok (line', e') ∧ Agree n members d' e' := by
  have hSort := sortByKey_of_numeric (· < ·) (value rows objective) line
    fun i _ => isNaN_value hNumeric objective i
  generalize stableSort _ line = sorted at hSort
  simp only [spread, hSort, ok_bind]
  split
  · rename_i first last _ _
    have hEnded := (h.setIfInBounds first infinite).setIfInBounds last infinite
    refine ⟨_, _, _, rfl, rfl, ?_⟩
    split
    · exact hEnded.addGaps _ _ sorted
    · exact hEnded
  · exact ⟨_, _, _, rfl, rfl, h⟩

/-- Spreading over all objectives goes well on numeric rows, and keeps an agreement of the
distances. -/
theorem exists_spreads (hNumeric : ∀ row ∈ rows, IsNumeric row) (h : Agree n members d e)
    (line objectives : List ℕ) :
    ∃ line' d' e', objectives.foldlM (spread rows) (line, d) = .ok (line', d') ∧
      objectives.foldlM (spread rows) (line, e) = .ok (line', e') ∧ Agree n members d' e' := by
  induction objectives generalizing line d e with
  | nil => exact ⟨line, d, e, rfl, rfl, h⟩
  | cons objective objectives ih =>
      obtain ⟨line', d', e', hD, hE, hNext⟩ := exists_spread hNumeric h line objective
      obtain ⟨line'', d'', e'', hD', hE', hLast⟩ := ih hNext line'
      refine ⟨line'', d'', e'', ?_, ?_, hLast⟩
      · rw [List.foldlM_cons, hD]
        exact hD'
      · rw [List.foldlM_cons, hE]
        exact hE'

/-- After the members got one value, they agree whatever they had before. -/
theorem agree_fill (hD : d.size = n) (hE : e.size = n) (x : Float) (front : List ℕ) :
    Agree n front (front.foldl (fun distances i => distances.setIfInBounds i x) d)
      (front.foldl (fun distances i => distances.setIfInBounds i x) e) := by
  have hFill : ∀ (seen : List ℕ) (d e : Distances), Agree n seen d e →
      Agree n (seen ++ front) (front.foldl (fun distances i => distances.setIfInBounds i x) d)
        (front.foldl (fun distances i => distances.setIfInBounds i x) e) := by
    induction front with
    | nil => simp
    | cons i front ih =>
        intro seen d e h
        have hNext : Agree n (seen ++ [i]) (d.setIfInBounds i x) (e.setIfInBounds i x) := by
          refine ⟨by simpa using h.size, by simpa using h.size', ?_⟩
          intro j hj
          rcases List.mem_append.mp hj with hSeen | hSame
          · exact (h.setIfInBounds i x).entries j hSeen
          · simp [List.mem_singleton.mp hSame, Array.getElem?_setIfInBounds, h.size, h.size']
        simpa using ih (seen ++ [i]) _ _ hNext
  exact hFill [] d e ⟨hD, hE, nofun⟩

/-- The distances of a front can always be assigned, and they depend on the front alone. -/
theorem exists_assign (hNumeric : ∀ row ∈ rows, IsNumeric row) (width : ℕ) (front : List ℕ)
    (hD : d.size = n) (hE : e.size = n) :
    ∃ d' e', assign rows width d front = .ok d' ∧ assign rows width e front = .ok e' ∧
      Agree n front d' e' := by
  unfold assign
  split
  · exact ⟨_, _, rfl, rfl, agree_fill hD hE infinite front⟩
  · obtain ⟨line, d', e', hD', hE', hAgree⟩ :=
      exists_spreads hNumeric (agree_fill hD hE 0.0 front) front (List.range width)
    exact ⟨d', e', by simp only [hD', ok_bind]; rfl, by simp only [hE', ok_bind]; rfl, hAgree⟩

/-- Whether a front can be put into the order of its distances. A short one always can, and a long
one if its distances have a common order. -/
def Orderable (rows : Rows) (width : ℕ) (front : List ℕ) : Prop :=
  front.length ≤ insertionLimit ∨
    ∃ distances, assign rows width (Array.replicate rows.size 0.0) front = .ok distances ∧
      areOrdered (front.map fun i => distances.getD i 0.0) = true

theorem ordered_eq (distances : Distances) (front : List ℕ) :
    ordered distances front =
      if front.length ≤ insertionLimit ∨
          areOrdered (front.map fun i => distances.getD i 0.0) = true then
        .ok (stableSort (fun a b => decide (distances.getD b 0.0 < distances.getD a 0.0)) front)
      else .error .unorderedKeys := rfl

/-- Whether a front can be ordered depends on the distances of its members alone. -/
theorem Agree.orderable {width : ℕ} {front : List ℕ} (h : Agree n front d e)
    (hAssign : assign rows width (Array.replicate rows.size 0.0) front = .ok e) :
    Orderable rows width front ↔ front.length ≤ insertionLimit ∨
      areOrdered (front.map fun i => d.getD i 0.0) = true := by
  have hMap : (front.map fun i => d.getD i 0.0) = front.map fun i => e.getD i 0.0 := by
    apply List.map_congr_left
    intro i hi
    simp only [Array.getD_eq_getD_getElem?, h.entries i hi]
  rw [Orderable, hMap]
  refine or_congr_right ⟨?_, fun hOrdered => ⟨e, hAssign, hOrdered⟩⟩
  rintro ⟨e', hAssign', hOrdered⟩
  rw [hAssign] at hAssign'
  cases hAssign'
  exact hOrdered

end Crowding

namespace Ranking

open Fronts

variable {rows : Rows} (width : ℕ)

/-- Finishing a front orders it, or is stopped if it cannot be ordered. -/
theorem finish_spec (hNumeric : ∀ row ∈ rows, IsNumeric row) {distances : Crowding.Distances}
    (hSize : distances.size = rows.size) (fronts : List (List ℕ)) (front : List ℕ) :
    (Crowding.Orderable rows width front →
      ∃ distances' front', distances'.size = rows.size ∧ front.Perm front' ∧
        finish rows width (distances, fronts) front = .ok (distances', fronts ++ [front'])) ∧
    (¬Crowding.Orderable rows width front →
      finish rows width (distances, fronts) front = .error .unorderedKeys) := by
  obtain ⟨d, e, hD, hE, hAgree⟩ :=
    Crowding.exists_assign hNumeric width front hSize Array.size_replicate
  rw [hAgree.orderable hE]
  simp only [finish, hD, ok_bind, Crowding.ordered_eq]
  constructor
  · intro hOrderable
    rw [if_pos hOrderable]
    exact ⟨d, _, hAgree.size, (perm_stableSort _ front).symm, rfl⟩
  · intro hRefused
    rw [if_neg hRefused]
    rfl

end Ranking

end WitnessSearch
