import WitnessSearch.Proofs.Float.Signs
import WitnessSearch.Proofs.Ranking.Preference
import WitnessSearch.Proofs.Subject.Points

/-! What a trace tells of one point. A program reports captures and distances in any order and for
any points, and all reports share one trace. Still, what is recorded for a point is made of the
reports for that point alone: its captures in their order, and the least of its distances, for which
the order does not matter. -/

namespace WitnessSearch

open FloatRounding

/-- What a program tells while it runs. -/
inductive Report where
  | capture (id : String) (values : List Int64)
  | distance (id : String) (distance : Float)

namespace Report

/-- The values that a report captures at a point. -/
def capturedAt (id : String) : Report → Option (List Int64)
  | .capture other values => if other = id then some values else none
  | .distance _ _ => none

/-- The distance that a report gives towards a point. -/
def distanceTo (id : String) : Report → Option Float
  | .capture _ _ => none
  | .distance other missing => if other = id then some missing else none

end Report

/-- The values captured at a point, in the order of the reports. -/
def capturesAt (id : String) (reports : List Report) : List (List Int64) :=
  reports.filterMap (·.capturedAt id)

/-- The distances given towards a point, in the order of the reports. -/
def distancesTo (id : String) (reports : List Report) : List Float :=
  reports.filterMap (·.distanceTo id)

namespace Trace

def record (trace : Trace) : Report → Trace
  | .capture id values => trace.capture id values
  | .distance id missing => trace.distance id missing

/-- The trace of a run that makes the given reports. -/
def ofReports (reports : List Report) : Trace :=
  reports.foldl record empty

section Captures

variable (trace : Trace) (id : String)

/-- A point was captured exactly if it was hit. -/
theorem captureCount_pos_iff : 0 < trace.captureCount id ↔ trace.hit id = true := by
  rw [hit_eq_isSome, captureCount_eq_length, firstCapture_eq_head?, List.isSome_head?,
    List.length_pos_iff]

/-- A report adds to the values of the point that it is about, and to no other. -/
theorem valuesAt_record (report : Report) :
    (trace.record report).valuesAt id = trace.valuesAt id ++ (report.capturedAt id).toList := by
  cases report with
  | capture other values =>
      by_cases h : other = id <;> simp [record, capture, valuesAt, Report.capturedAt, h]
  | distance other missing => exact (List.append_nil _).symm

theorem valuesAt_foldl_record (reports : List Report) :
    (reports.foldl record trace).valuesAt id = trace.valuesAt id ++ capturesAt id reports := by
  induction reports generalizing trace with
  | nil => exact (List.append_nil _).symm
  | cons report reports ih =>
      rw [List.foldl_cons, ih, valuesAt_record, List.append_assoc]
      cases h : report.capturedAt id <;> simp [capturesAt, h]

/-- The values of a point are what its own reports have captured, in their order. -/
theorem valuesAt_ofReports (reports : List Report) :
    (ofReports reports).valuesAt id = capturesAt id reports :=
  valuesAt_foldl_record empty id reports

end Captures

section Slack

/-- The larger of a distance and zero. What is not a number counts as zero. -/
def clamped (distance : Float) : Float :=
  if distance.isNaN then 0.0 else max distance 0.0

theorem slack_eq_clamped (distance : Float) : slack distance = clamped distance := by
  unfold slack clamped
  cases hNumber : distance.isNaN with
  | true =>
      have hNot : ¬0.0 < distance := fun hPositive =>
        Bool.false_ne_true ((isNaN_of_pos hPositive).symm.trans hNumber)
      rw [if_neg hNot, if_pos rfl]
  | false =>
      have hMax : max distance 0.0 = if distance ≤ 0.0 then 0.0 else distance := rfl
      simp only [hMax, FloatOrder.le_iff_not_lt hNumber (y := 0.0) (by decide), ite_not,
        Bool.false_eq_true, if_false]

/-- A slack is a number, also for a distance that is none. -/
theorem isNaN_slack (distance : Float) : (slack distance).isNaN = false := by
  unfold slack
  split
  · rename_i hPositive
    exact isNaN_of_pos hPositive
  · decide

/-- The least of some distances as they count. -/
structure IsLeastSlack (distances : List Float) (best : Float) : Prop where
  reached : ∃ distance ∈ distances, best = slack distance
  least : ∀ distance ∈ distances, ¬slack distance < best

variable {distances : List Float} {best : Float}

/-- The first position of a least slack holds a distance that counts least. -/
theorem isLeastSlack_of_isFirstLeast {i : ℕ} {distance : Float}
    (h : Fronts.IsFirstLeast (distances.map slack) i) (hHere : distances[i]? = some distance) :
    IsLeastSlack distances (slack distance) where
  reached := ⟨distance, List.mem_of_getElem? hHere, rfl⟩
  least other hOther := by
    obtain ⟨j, hj⟩ := List.mem_iff_getElem?.mp hOther
    have hBound : j < (distances.map slack).length := by
      rw [List.length_map]
      exact (List.getElem?_eq_some_iff.mp hj).1
    simpa [List.getD_eq_getElem?_getD, hHere, hj] using h.least j hBound

namespace IsLeastSlack

theorem isNaN (h : IsLeastSlack distances best) : best.isNaN = false := by
  obtain ⟨distance, -, rfl⟩ := h.reached
  exact isNaN_slack distance

/-- The least slack is one of the clamped distances. -/
theorem beq_clamped (h : IsLeastSlack distances best) :
    ∃ distance ∈ distances, (best == clamped distance) = true := by
  obtain ⟨distance, hMem, hBest⟩ := h.reached
  have hSelf := FloatOrder.lt_irrefl h.isNaN
  refine ⟨distance, hMem, ?_⟩
  rw [← slack_eq_clamped, ← hBest]
  exact FloatOrder.beq_of_not_lt h.isNaN h.isNaN hSelf hSelf

/-- The least slack is at most every clamped distance. -/
theorem le_clamped (h : IsLeastSlack distances best) :
    ∀ distance ∈ distances, best ≤ clamped distance := by
  intro distance hMem
  rw [← slack_eq_clamped, FloatOrder.le_iff_not_lt h.isNaN (isNaN_slack distance)]
  exact h.least distance hMem

/-- The least does not depend on the order, up to the sign of zero. -/
theorem beq_of_perm {distances' : List Float} {best' : Float} (h : IsLeastSlack distances best)
    (h' : IsLeastSlack distances' best') (hPerm : distances.Perm distances') :
    (best == best') = true := by
  obtain ⟨distance, hMem, hBest⟩ := h.reached
  obtain ⟨distance', hMem', hBest'⟩ := h'.reached
  refine FloatOrder.beq_of_not_lt h.isNaN h'.isNaN ?_ ?_
  · rw [hBest]
    exact h'.least distance (hPerm.mem_iff.mp hMem)
  · rw [hBest']
    exact h.least distance' (hPerm.mem_iff.mpr hMem')

end IsLeastSlack

end Slack

section Distances

/-- The distance on record after one more is given. -/
def tighten : Option Float → Float → Option Float
  | some best, missing => some (if slack missing < best then slack missing else best)
  | none, missing => some (slack missing)

/-- A report tightens the best distance of the point that it is about, and of no other. -/
theorem bestDistance_record (trace : Trace) (id : String) (report : Report) :
    (trace.record report).bestDistance id =
      (report.distanceTo id).toList.foldl tighten (trace.bestDistance id) := by
  cases report with
  | capture other values => rfl
  | distance other missing =>
      by_cases h : other = id
      · subst h
        have hSet : (trace.distance other missing).bestDistance other = some _ :=
          lookup_setDistance_self _ _ _
        rw [record, hSet]
        cases trace.bestDistance other <;> simp [Report.distanceTo, tighten]
      · simp [record, Report.distanceTo, h, bestDistance_distance_of_ne (Ne.symm h)]

theorem bestDistance_foldl_record (trace : Trace) (id : String) (reports : List Report) :
    (reports.foldl record trace).bestDistance id =
      (distancesTo id reports).foldl tighten (trace.bestDistance id) := by
  induction reports generalizing trace with
  | nil => rfl
  | cons report reports ih =>
      rw [List.foldl_cons, ih, bestDistance_record]
      cases h : report.distanceTo id <;> simp [distancesTo, h]

/-- The best distance of a point depends on the distances of its own reports alone. -/
theorem bestDistance_ofReports (id : String) (reports : List Report) :
    (ofReports reports).bestDistance id = (distancesTo id reports).foldl tighten none :=
  bestDistance_foldl_record empty id reports

/-- What is on record counts as the best of the distances so far does. -/
theorem foldl_tighten (first : Float) (rest : List Float) :
    rest.foldl tighten (some (slack first)) =
      some (slack (rest.foldl (fun best x => if slack x < slack best then x else best) first)) := by
  induction rest generalizing first with
  | nil => rfl
  | cons distance rest ih =>
      rw [List.foldl_cons, List.foldl_cons, ← ih, apply_ite slack]
      rfl

theorem exists_bestDistance {id : String} {reports : List Report}
    (h : distancesTo id reports ≠ []) :
    ∃ best, (ofReports reports).bestDistance id = some best ∧
      IsLeastSlack (distancesTo id reports) best := by
  rw [bestDistance_ofReports]
  obtain ⟨first, rest, hGiven⟩ := List.exists_cons_of_ne_nil h
  have hStart : Fronts.IsFirstLeast ([first].map slack) 0 :=
    Fronts.isFirstLeast_singleton (isNaN_slack first)
  have hNumbers : ∀ distance ∈ [first] ++ rest, (slack distance).isNaN = false :=
    fun distance _ => isNaN_slack distance
  obtain ⟨i, hFirst, hHere⟩ := Fronts.isFirstLeast_foldl hStart rfl hNumbers
  rw [hGiven]
  exact ⟨_, foldl_tighten first rest, isLeastSlack_of_isFirstLeast hFirst hHere⟩

/-- A point has no best distance exactly if no report gave one. -/
theorem bestDistance_eq_none_iff (id : String) (reports : List Report) :
    (ofReports reports).bestDistance id = none ↔ distancesTo id reports = [] := by
  constructor
  · intro hNone
    by_contra hSome
    obtain ⟨best, hBest, -⟩ := exists_bestDistance hSome
    exact Option.some_ne_none best (hBest.symm.trans hNone)
  · intro hNever
    rw [bestDistance_ofReports, hNever]
    rfl

/-- A best distance is the least slack of the distances that were reported. -/
theorem isLeastSlack_bestDistance {id : String} {reports : List Report} {best : Float}
    (h : (ofReports reports).bestDistance id = some best) :
    IsLeastSlack (distancesTo id reports) best := by
  have hSome : distancesTo id reports ≠ [] := fun hNever =>
    Option.some_ne_none best (h.symm.trans ((bestDistance_eq_none_iff id reports).mpr hNever))
  obtain ⟨least, hLeast, hIsLeast⟩ := exists_bestDistance hSome
  rwa [Option.some.inj (h.symm.trans hLeast)]

/-- The order of the reports does not matter to the best distance, up to equality of doubles. -/
theorem bestDistance_perm {reports reports' : List Report} (h : reports.Perm reports')
    (id : String) : Option.Rel (fun x y => (x == y) = true) ((ofReports reports).bestDistance id)
      ((ofReports reports').bestDistance id) := by
  have hPerm : (distancesTo id reports).Perm (distancesTo id reports') := h.filterMap _
  by_cases hNever : distancesTo id reports = []
  · have hNever' : distancesTo id reports' = [] := (hNever ▸ hPerm).nil_eq.symm
    rw [(bestDistance_eq_none_iff id reports).mpr hNever,
      (bestDistance_eq_none_iff id reports').mpr hNever']
    exact .none
  · have hNever' : distancesTo id reports' ≠ [] := fun hNil => hNever (hNil ▸ hPerm).eq_nil
    obtain ⟨best, hBest, hLeast⟩ := exists_bestDistance hNever
    obtain ⟨best', hBest', hLeast'⟩ := exists_bestDistance hNever'
    rw [hBest, hBest']
    exact .some (hLeast.beq_of_perm hLeast' hPerm)

end Distances

/-- What a trace tells of a point after any reports. It has no distance exactly if none was given
towards the point, and otherwise the least of those given, each as the larger of it and zero, and
the same number for every order of the reports. The captures are those reported for the point: their
number, the values of the earliest one, and whether there is one. A report of another point, and one
of the other kind, might as well not have been made. -/
theorem ofReports_tells_each_point (reports : List Report) (id : String) :
    ((ofReports reports).bestDistance id = none ↔ distancesTo id reports = []) ∧
    (∀ best, (ofReports reports).bestDistance id = some best →
      (∃ distance ∈ distancesTo id reports, (best == clamped distance) = true) ∧
        ∀ distance ∈ distancesTo id reports, best ≤ clamped distance) ∧
    (∀ reports', reports.Perm reports' →
      Option.Rel (fun x y => (x == y) = true) ((ofReports reports).bestDistance id)
        ((ofReports reports').bestDistance id)) ∧
    (ofReports reports).captureCount id = (capturesAt id reports).length ∧
    (ofReports reports).firstCapture id = (capturesAt id reports).head? ∧
    ((ofReports reports).hit id = true ↔ 0 < (ofReports reports).captureCount id) ∧
    (0 < (ofReports reports).captureCount id ↔
      ((ofReports reports).firstCapture id).isSome = true) ∧
    ∀ before report after, reports = before ++ report :: after →
      (report.distanceTo id = none →
        (ofReports reports).bestDistance id = (ofReports (before ++ after)).bestDistance id) ∧
      (report.capturedAt id = none →
        (ofReports reports).hit id = (ofReports (before ++ after)).hit id ∧
        (ofReports reports).firstCapture id = (ofReports (before ++ after)).firstCapture id ∧
        (ofReports reports).captureCount id = (ofReports (before ++ after)).captureCount id) := by
  refine ⟨bestDistance_eq_none_iff id reports, fun best hBest => ?_,
    fun reports' hPerm => bestDistance_perm hPerm id, ?_, ?_, (captureCount_pos_iff _ id).symm, ?_,
    ?_⟩
  · have hLeast := isLeastSlack_bestDistance hBest
    exact ⟨hLeast.beq_clamped, hLeast.le_clamped⟩
  · rw [captureCount_eq_length, valuesAt_ofReports]
  · rw [firstCapture_eq_head?, valuesAt_ofReports]
  · rw [captureCount_pos_iff, hit_eq_isSome]
  · rintro before report after rfl
    refine ⟨fun hOther => ?_, fun hOther => ?_⟩
    · have hSame : distancesTo id (before ++ report :: after) = distancesTo id (before ++ after) := by
        simp [distancesTo, hOther]
      rw [bestDistance_ofReports, hSame, bestDistance_ofReports]
    · have hSame : capturesAt id (before ++ report :: after) = capturesAt id (before ++ after) := by
        simp [capturesAt, hOther]
      simp only [hit_eq_isSome, firstCapture_eq_head?, captureCount_eq_length, valuesAt_ofReports,
        hSame, and_self]

/-- A loop of two turns and three distances towards its exit, one of which is not a number. -/
def loopReports : List Report :=
  [.capture "loop" [0, 1], .distance "exit" 4.0, .distance "exit" (0.0 / 0.0),
    .capture "loop" [1, 1], .distance "exit" 2.0]

theorem ofReports_tells_each_point_loop :
    (ofReports loopReports).bestDistance "loop" = none ∧
      (ofReports loopReports).captureCount "loop" = 2 ∧
      (ofReports loopReports).firstCapture "loop" = some [0, 1] ∧
      (∃ best, (ofReports loopReports).bestDistance "exit" = some best ∧ best ≤ 0.0) ∧
      (ofReports loopReports.reverse).hit "exit" = false := by
  obtain ⟨hNever, -, -, hCount, hFirst, -⟩ := ofReports_tells_each_point loopReports "loop"
  obtain ⟨hNone, hLeast, -⟩ := ofReports_tells_each_point loopReports "exit"
  obtain ⟨-, -, -, hMissed, -, hHit, -⟩ := ofReports_tells_each_point loopReports.reverse "exit"
  have hSome : (ofReports loopReports).bestDistance "exit" ≠ none := fun hNil =>
    absurd (congrArg List.length (hNone.mp hNil)) (by decide)
  obtain ⟨best, hBest⟩ := Option.ne_none_iff_exists'.mp hSome
  have hZero : best ≤ clamped (0.0 / 0.0) :=
    (hLeast best hBest).2 _ (List.mem_cons_of_mem _ List.mem_cons_self)
  refine ⟨hNever.mpr rfl, hCount.trans rfl, hFirst.trans rfl, ⟨best, hBest, hZero⟩, ?_⟩
  rw [← Bool.not_eq_true, hHit, hMissed]
  decide

end Trace

end WitnessSearch
