import WitnessSearch.Proofs.Subject.Traces

/-! Capture points and what a run tells of them. A run of a subject reaches a point and records no
distance towards it, or it misses the point and the least distance that it records is positive. This
holds for arguments far beyond the range that inputs are drawn from, as long as no checked operation
of the subject leaves the 64-bit range. -/

namespace WitnessSearch

open Checked FloatRounding

namespace Trace

/-- A point is reached and has no distance, or it is missed and has a positive one, not both. -/
def AccountsFor (trace : Trace) (id : String) : Prop :=
  Xor (trace.hit id = true ∧ trace.bestDistance id = none)
    (trace.hit id = false ∧ ∃ distance, trace.bestDistance id = some distance ∧ 0.0 < distance)

/-- The trace accounts for the given points, and of no other point it tells anything. -/
structure Covers (trace : Trace) (ids : List String) : Prop where
  accounted : ∀ id ∈ ids, trace.AccountsFor id
  silent : ∀ id ∉ ids, trace.hit id = false ∧ trace.bestDistance id = none

def valuesAt (trace : Trace) (id : String) : List (List Int64) :=
  (trace.captures.toList.filter (·.id = id)).map (·.values)

section Records

variable (trace : Trace) (id other : String) (values : List Int64) (distance : Float)

@[simp] theorem hit_empty : Trace.empty.hit id = false := by
  simp [hit, empty]

@[simp] theorem bestDistance_empty : Trace.empty.bestDistance id = none :=
  rfl

@[simp] theorem hit_capture :
    (trace.capture other values).hit id = (trace.hit id || decide (other = id)) := by
  simp [hit, capture]

@[simp] theorem bestDistance_capture :
    (trace.capture other values).bestDistance id = trace.bestDistance id :=
  rfl

@[simp] theorem hit_distance : (trace.distance other distance).hit id = trace.hit id :=
  rfl

/-- The first capture of a point is the first of its own values. -/
theorem firstCapture_eq_head? : trace.firstCapture id = (trace.valuesAt id).head? := by
  rw [firstCapture, ← Array.find?_toList, valuesAt, List.head?_map, List.head?_filter]

/-- The captures of a point are counted by its own values. -/
theorem captureCount_eq_length : trace.captureCount id = (trace.valuesAt id).length := by
  rw [captureCount, ← Array.countP_toList, List.countP_eq_length_filter, valuesAt, List.length_map]

theorem lookup_setDistance_self (entries : List (String × Float)) :
    (setDistance id distance entries).lookup id = some distance := by
  induction entries with
  | nil => simp [setDistance]
  | cons entry rest ih =>
      obtain ⟨known, best⟩ := entry
      by_cases h : id = known
      · simp [setDistance, h]
      · simp [setDistance, h, List.lookup_cons, beq_eq_false_iff_ne.mpr h, ih]

variable {trace id other distance}

theorem lookup_setDistance_of_ne (h : id ≠ other) (entries : List (String × Float)) :
    (setDistance other distance entries).lookup id = entries.lookup id := by
  induction entries with
  | nil => simp [setDistance, List.lookup_cons, beq_eq_false_iff_ne.mpr h]
  | cons entry rest ih =>
      obtain ⟨known, best⟩ := entry
      by_cases hKnown : other = known
      · subst hKnown
        simp [setDistance, List.lookup_cons, beq_eq_false_iff_ne.mpr h]
      · simp [setDistance, hKnown, List.lookup_cons, ih]

/-- A distance to one point does not matter to another. -/
theorem bestDistance_distance_of_ne (h : id ≠ other) :
    (trace.distance other distance).bestDistance id = trace.bestDistance id :=
  lookup_setDistance_of_ne h _

/-- The first distance towards a point stays as it is if it is positive. -/
theorem bestDistance_distance_of_none (hFirst : trace.bestDistance id = none)
    (hPositive : 0.0 < distance) :
    (trace.distance id distance).bestDistance id = some distance := by
  have hSlack : slack distance = distance := if_pos hPositive
  have hSet : (trace.distance id distance).bestDistance id = some _ :=
    lookup_setDistance_self _ _ _
  rw [hSet, hFirst, hSlack]

end Records

section Covering

variable {trace : Trace} {ids : List String} {id : String}

theorem covers_empty : Trace.empty.Covers [] where
  accounted _ hMem := absurd hMem List.not_mem_nil
  silent _ _ := ⟨hit_empty _, bestDistance_empty _⟩

/-- The order of the points does not matter to a trace that accounts for them. -/
theorem Covers.perm {ids' : List String} (h : trace.Covers ids) (hPerm : ids.Perm ids') :
    trace.Covers ids' where
  accounted id hMem := h.accounted id (hPerm.mem_iff.mpr hMem)
  silent id hNew := h.silent id fun hMem => hNew (hPerm.mem_iff.mp hMem)

/-- Only the hit and the best distance of a point matter to its account. -/
theorem AccountsFor.congr {trace' : Trace} (h : trace.AccountsFor id)
    (hHit : trace'.hit id = trace.hit id)
    (hBest : trace'.bestDistance id = trace.bestDistance id) : trace'.AccountsFor id := by
  rwa [AccountsFor, hHit, hBest]

/-- A point of which nothing was told yet is captured. -/
theorem Covers.capture (h : trace.Covers ids) (hNew : id ∉ ids) (values : List Int64) :
    (trace.capture id values).Covers (id :: ids) where
  accounted other hMem := by
    rcases List.mem_cons.mp hMem with rfl | hOld
    · have hReached : (trace.capture other values).hit other = true := by simp
      exact .inl ⟨⟨hReached, (h.silent other hNew).2⟩, fun hMissed => by simp [hReached] at hMissed⟩
    · have hOther : id ≠ other := fun hSame => hNew (hSame ▸ hOld)
      exact (h.accounted other hOld).congr (by simp [hOther]) rfl
  silent other hOther := by
    obtain ⟨hNe, hOut⟩ := not_or.mp (mt List.mem_cons.mpr hOther)
    simpa [Ne.symm hNe] using h.silent other hOut

/-- A point that was reached before is captured once more. -/
theorem Covers.recapture (h : trace.Covers ids) (hMem : id ∈ ids) (hReached : trace.hit id = true)
    (values : List Int64) : (trace.capture id values).Covers ids where
  accounted other hOther := by
    refine (h.accounted other hOther).congr ?_ rfl
    by_cases hSame : id = other
    · simp [← hSame, hReached]
    · simp [hSame]
  silent other hOut := by
    have hNe : id ≠ other := fun hSame => hOut (hSame ▸ hMem)
    simpa [hNe] using h.silent other hOut

/-- A positive distance is recorded towards a point of which nothing was told yet. -/
theorem Covers.distance (h : trace.Covers ids) (hNew : id ∉ ids) {distance : Float}
    (hPositive : 0.0 < distance) : (trace.distance id distance).Covers (id :: ids) where
  accounted other hMem := by
    rcases List.mem_cons.mp hMem with rfl | hOld
    · obtain ⟨hMissed, hNone⟩ := h.silent other hNew
      have hBest := bestDistance_distance_of_none hNone hPositive
      exact .inr ⟨⟨hMissed, distance, hBest, hPositive⟩,
        fun hReached => by simp [hBest] at hReached⟩
    · have hOther : other ≠ id := fun hSame => hNew (hSame ▸ hOld)
      exact (h.accounted other hOld).congr rfl (bestDistance_distance_of_ne hOther)
  silent other hOther := by
    obtain ⟨hNe, hOut⟩ := not_or.mp (mt List.mem_cons.mpr hOther)
    rw [hit_distance, bestDistance_distance_of_ne hNe]
    exact h.silent other hOut

end Covering

end Trace

namespace Subject

open Trace

/-- The size that arguments may have. What the subjects compute of such arguments stays in range. -/
def widest : Int := 2 ^ 60

section Slacks

variable {left right : Int64} {m n : Int}

/-- The distance to being less gauges the comparison, with no overflow among limited numbers. -/
theorem gauges_less (hLeft : Limited m left) (hRight : Limited n right)
    (hRoom : m + n ≤ 0x4000000000000000) :
    Answers True (missingToLess left right) (Gauges 63 (left.toInt < right.toInt)) :=
  have hRange := inRange_difference hLeft hRight hRoom
  gauges_missingToLess (fun _ => hRange.1) fun _ => hRange.2

/-- The distance to being at most as large gauges the comparison, with no overflow among limited
numbers. -/
theorem gauges_atMost (hLeft : Limited m left) (hRight : Limited n right)
    (hRoom : m + n ≤ 0x4000000000000000) :
    Answers True (missingToAtMost left right) (Gauges 63 (left.toInt ≤ right.toInt)) :=
  gauges_missingToAtMost fun _ => (inRange_difference hLeft hRight hRoom).1

theorem limited_sum (hLeft : Limited m left) (hRight : Limited n right)
    (hRoom : m + n ≤ 0x4000000000000000) :
    Answers True (add left right) (Limited (m + n)) := by
  obtain ⟨hLow, hHigh⟩ := hLeft
  obtain ⟨hLow', hHigh'⟩ := hRight
  refine (answers_add fun _ => by constructor <;> omega).weaken fun sum hSum => ?_
  rw [Limited, hSum]
  omega

end Slacks

namespace LessThan

theorem covers_run {a b : Int64} (hA : Limited widest a) (hB : Limited widest b) :
    Answers True (run a b) (·.Covers [exit, falseBranch, trueBranch]) := by
  have hRoom : widest + widest ≤ 0x4000000000000000 := by decide
  simp only [run, pure_bind]
  split
  · rename_i hLess
    rw [Int64.lt_iff_toInt_lt] at hLess
    refine Answers.bind (gauges_atMost hB hA hRoom) fun missing hMissing => Answers.pure ?_
    have hPositive : 0.0 < missing := hMissing.pos_iff.mpr (by omega)
    have hReached := covers_empty.capture (by decide : trueBranch ∉ []) [a, b]
    exact (hReached.distance (by decide : falseBranch ∉ [trueBranch]) hPositive).capture
      (by decide) [a, b]
  · rename_i hNot
    rw [Int64.lt_iff_toInt_lt] at hNot
    refine Answers.bind (gauges_less hA hB hRoom) fun missing hMissing => Answers.pure ?_
    have hPositive : 0.0 < missing := hMissing.pos_iff.mpr hNot
    have hReached := covers_empty.capture (by decide : falseBranch ∉ []) [a, b]
    refine ((hReached.distance (by decide : trueBranch ∉ [falseBranch]) hPositive).capture
      (by decide : exit ∉ [trueBranch, falseBranch]) [a, b]).perm (by decide)

end LessThan

namespace Triangle

theorem covers_decide {a bc : Int64} {values : List Int64} (hA : Limited widest a)
    (hBc : Limited (widest + widest) bc) :
    Answers True (decide a bc values) (·.Covers [rejectedThird, accepted]) := by
  unfold decide
  split
  · rename_i hLess
    rw [Int64.lt_iff_toInt_lt] at hLess
    refine Answers.bind (gauges_atMost hBc hA (by decide)) fun missing hMissing => Answers.pure ?_
    exact (covers_empty.capture (by decide) values).distance (by decide)
      (hMissing.pos_iff.mpr (by omega))
  · rename_i hNot
    rw [Int64.lt_iff_toInt_lt] at hNot
    refine Answers.bind (gauges_less hA hBc (by decide)) fun missing hMissing => Answers.pure ?_
    have hReached := covers_empty.capture (by decide : rejectedThird ∉ []) values
    exact (hReached.distance (by decide : accepted ∉ [rejectedThird])
      (hMissing.pos_iff.mpr hNot)).perm (by decide)

theorem covers_decideSecond {a b ac bc : Int64} {values : List Int64} (hA : Limited widest a)
    (hB : Limited widest b) (hAc : Limited (widest + widest) ac)
    (hBc : Limited (widest + widest) bc) :
    Answers True (decideSecond a b ac bc values)
      (·.Covers [rejectedSecond, rejectedThird, accepted]) := by
  unfold decideSecond
  split
  · rename_i hLess
    rw [Int64.lt_iff_toInt_lt] at hLess
    refine Answers.bind (covers_decide hA hBc) fun trace hTrace => ?_
    refine Answers.bind (gauges_atMost hAc hB (by decide)) fun missing hMissing => Answers.pure ?_
    exact hTrace.distance (by decide) (hMissing.pos_iff.mpr (by omega))
  · rename_i hNot
    rw [Int64.lt_iff_toInt_lt] at hNot
    refine Answers.bind (gauges_less hB hAc (by decide)) fun missing hMissing => Answers.pure ?_
    have hPositive : 0.0 < missing := hMissing.pos_iff.mpr hNot
    have hReached := covers_empty.capture (by decide : rejectedSecond ∉ []) values
    exact ((hReached.distance (by decide : accepted ∉ [rejectedSecond]) hPositive).distance
      (by decide : rejectedThird ∉ [accepted, rejectedSecond]) hPositive).perm (by decide)

theorem covers_run {a b c : Int64} (hA : Limited widest a) (hB : Limited widest b)
    (hC : Limited widest c) :
    Answers True (run a b c)
      (·.Covers [rejectedFirst, rejectedSecond, rejectedThird, accepted]) := by
  refine Answers.bind (limited_sum hA hB (by decide)) fun ab hAb => ?_
  refine Answers.bind (limited_sum hA hC (by decide)) fun ac hAc => ?_
  refine Answers.bind (limited_sum hB hC (by decide)) fun bc hBc => ?_
  dsimp only
  split
  · rename_i hLess
    rw [Int64.lt_iff_toInt_lt] at hLess
    refine Answers.bind (covers_decideSecond hA hB hAc hBc) fun trace hTrace => ?_
    refine Answers.bind (gauges_atMost hAb hC (by decide)) fun missing hMissing => Answers.pure ?_
    exact hTrace.distance (by decide) (hMissing.pos_iff.mpr (by omega))
  · rename_i hNot
    rw [Int64.lt_iff_toInt_lt] at hNot
    refine Answers.bind (gauges_less hC hAb (by decide)) fun missing hMissing => Answers.pure ?_
    have hPositive : 0.0 < missing := hMissing.pos_iff.mpr hNot
    have hReached := covers_empty.capture (by decide : rejectedFirst ∉ []) [a, b, c, ab, ac, bc]
    have hFirst := hReached.distance (by decide : accepted ∉ [rejectedFirst]) hPositive
    exact ((hFirst.distance (by decide : rejectedThird ∉ [accepted, rejectedFirst])
      hPositive).distance (by decide : rejectedSecond ∉ [rejectedThird, accepted, rejectedFirst])
      hPositive).perm (by decide)

end Triangle

namespace BindExpands

variable {offset n1 n2 maxData : Int64}

/-- The conditions before the entry. -/
structure Guarded (offset n1 n2 maxData : Int64) : Prop where
  maxData_nonneg : 0 ≤ maxData.toInt
  n1_nonneg : 0 ≤ n1.toInt
  n2_nonneg : 0 ≤ n2.toInt
  offset_nonneg : 0 ≤ offset.toInt
  n1_le : n1.toInt ≤ maxData.toInt * 2
  offset_le : offset.toInt ≤ n1.toInt
  n2_le : n2.toInt ≤ maxData.toInt * 2 - n1.toInt

theorem guarded_iff :
    ((((((0 ≤ maxData.toInt ∧ 0 ≤ n1.toInt) ∧ 0 ≤ n2.toInt) ∧ 0 ≤ offset.toInt) ∧
      n1.toInt ≤ maxData.toInt * 2) ∧ offset.toInt ≤ n1.toInt) ∧
      n2.toInt ≤ maxData.toInt * 2 - n1.toInt) ↔ Guarded offset n1 n2 maxData :=
  ⟨fun ⟨⟨⟨⟨⟨⟨h1, h2⟩, h3⟩, h4⟩, h5⟩, h6⟩, h7⟩ => ⟨h1, h2, h3, h4, h5, h6, h7⟩,
    fun ⟨h1, h2, h3, h4, h5, h6, h7⟩ => ⟨⟨⟨⟨⟨⟨h1, h2⟩, h3⟩, h4⟩, h5⟩, h6⟩, h7⟩⟩

/-- The sum of what is missing tells whether all conditions hold. -/
theorem gauges_guard (hOffset : Limited widest offset) (hFirst : Limited widest n1)
    (hSecond : Limited widest n2) (hData : Limited widest maxData) :
    Answers True (guard offset n1 n2 maxData) (Gauges 69 (Guarded offset n1 n2 maxData)) := by
  have hZero : Limited 0 0 := ⟨by decide, by decide⟩
  have hTwo : (2 : Int64).toInt = 2 := by decide
  have hDouble : Answers True (mul maxData 2) fun twice =>
      twice.toInt = maxData.toInt * 2 ∧ Limited (widest + widest) twice := by
    obtain ⟨hLow, hHigh⟩ := hData
    unfold widest at *
    refine (answers_mul fun _ => by rw [hTwo]; constructor <;> omega).weaken fun twice hTwice => ?_
    rw [hTwo] at hTwice
    exact ⟨hTwice, by omega, by omega⟩
  refine Answers.bind (gauges_atMost hZero hData (by decide)) fun d1 h1 => ?_
  refine Answers.bind (gauges_atMost hZero hFirst (by decide)) fun d2 h2 => ?_
  refine Answers.bind (gauges_atMost hZero hSecond (by decide)) fun d3 h3 => ?_
  refine Answers.bind (gauges_atMost hZero hOffset (by decide)) fun d4 h4 => ?_
  refine Answers.bind hDouble fun twice hTwice => ?_
  refine Answers.bind (gauges_atMost hFirst hTwice.2 (by decide)) fun d5 h5 => ?_
  refine Answers.bind (gauges_atMost hOffset hFirst (by decide)) fun d6 h6 => ?_
  refine Answers.bind hDouble fun twice' hTwice' => ?_
  have hRange := inRange_difference hTwice'.2 hFirst (by decide)
  refine Answers.bind (answers_sub fun _ => hRange.1) fun rest hRest => ?_
  have hLimited : Limited (widest + widest + widest) rest := by
    obtain ⟨-, hLow, hHigh⟩ := hTwice'
    obtain ⟨hLow', hHigh'⟩ := hFirst
    constructor <;> omega
  refine Answers.bind (gauges_atMost hSecond hLimited (by decide)) fun d7 h7 => Answers.pure ?_
  rw [hTwice.1] at h5
  rw [hRest, hTwice'.1] at h7
  have hFour := ((h1.add h2 le_rfl (by decide)).add h3 (by decide) (by decide)).add h4 (by decide)
    (by decide)
  have hSix := (hFour.add h5 (by decide) (by decide)).add h6 (by decide) (by decide)
  exact (hSix.add h7 (by decide) (by decide)).congr guarded_iff

def turnsFrom (offset maxData : Int64) (turns : List Nat) : List Capture :=
  turns.map fun i => ⟨loop, [Int64.ofNat i, offset, maxData]⟩

/-- A loop captures one value for each of its turns, in their order. -/
theorem captures_loop (turns : List Nat) (trace : Trace) :
    (turns.foldl (fun trace i => trace.capture loop [Int64.ofNat i, offset, maxData])
      trace).captures.toList = trace.captures.toList ++ turnsFrom offset maxData turns := by
  induction turns generalizing trace with
  | nil => simp [turnsFrom]
  | cons i turns ih =>
      rw [List.foldl_cons, ih]
      simp [Trace.capture, turnsFrom]

/-- The first turn reaches the point, and so do all others. -/
theorem covers_loop {turns : List Nat} (hSome : turns ≠ []) {trace : Trace} {ids : List String}
    (h : trace.Covers ids) (hNew : loop ∉ ids) :
    (turns.foldl (fun trace i => trace.capture loop [Int64.ofNat i, offset, maxData])
      trace).Covers (loop :: ids) := by
  obtain ⟨i, turns, rfl⟩ := List.exists_cons_of_ne_nil hSome
  have hFirst := h.capture hNew [Int64.ofNat i, offset, maxData]
  have hReached : (trace.capture loop [Int64.ofNat i, offset, maxData]).hit loop = true := by simp
  rw [List.foldl_cons]
  generalize trace.capture loop [Int64.ofNat i, offset, maxData] = start at hFirst hReached
  clear h hSome
  induction turns generalizing start with
  | nil => exact hFirst
  | cons i turns ih => exact ih _ (hFirst.recapture List.mem_cons_self hReached _) (by simp)

/-- What a run behind the guard tells. -/
structure Entered (offset n1 n2 maxData : Int64) (trace : Trace) : Prop where
  covers : trace.Covers [loop, entry]
  captures : trace.captures.toList = ⟨entry, [offset, n1, n2, maxData]⟩ ::
    turnsFrom offset maxData (List.range n2.toInt.toNat)

/-- Entering the loop is accounted for, and tells how many turns there are. -/
theorem entered_enter (hSecond : Limited widest n2) :
    Answers True (enter offset n1 n2 maxData) (Entered offset n1 n2 maxData) := by
  have hZero : Limited 0 0 := ⟨by decide, by decide⟩
  have hEntry := covers_empty.capture (by decide : entry ∉ []) [offset, n1, n2, maxData]
  simp only [enter, pure_bind]
  split
  · rename_i hNone
    rw [Int64.le_iff_toInt_le] at hNone
    refine Answers.bind (gauges_less hZero hSecond (by decide)) fun missing hMissing =>
      Answers.pure ?_
    have hTurns : n2.toInt.toNat = 0 := Int.toNat_eq_zero.mpr hNone
    have hPositive : 0.0 < missing := hMissing.pos_iff.mpr (by simpa using hNone)
    rw [hTurns]
    exact ⟨hEntry.distance (by decide) hPositive, by rw [hTurns]; rfl⟩
  · rename_i hSome
    rw [Int64.le_iff_toInt_le] at hSome
    have hTurns : List.range n2.toInt.toNat ≠ [] := by
      rw [Ne, List.range_eq_nil, Int.toNat_eq_zero]
      exact hSome
    exact Answers.pure ⟨covers_loop hTurns hEntry (by decide), captures_loop _ _⟩

structure Told (offset n1 n2 maxData : Int64) (trace : Trace) : Prop where
  covers : trace.Covers [loop, entry]
  guarded : trace.hit entry = true ↔ Guarded offset n1 n2 maxData
  entered : trace.hit entry = true → Entered offset n1 n2 maxData trace

/-- Every run tells its points as they are reached, loop included. -/
theorem told_run (hOffset : Limited widest offset) (hFirst : Limited widest n1)
    (hSecond : Limited widest n2) (hData : Limited widest maxData) :
    Answers True (run offset n1 n2 maxData) (Told offset n1 n2 maxData) := by
  have hZero : Limited 0 0 := ⟨by decide, by decide⟩
  refine Answers.bind (gauges_guard hOffset hFirst hSecond hData) fun missing hMissing => ?_
  dsimp only
  split
  · rename_i hPositive
    have hNot := hMissing.pos_iff.mp hPositive
    refine Answers.bind (gauges_less hZero hSecond (by decide)) fun more hMore => Answers.pure ?_
    have hBoth : 0.0 < missing + more :=
      (hMissing.add hMore (by decide) (by decide)).pos_iff.mpr fun hBoth => hNot hBoth.1
    exact {
      covers := (covers_empty.distance (by decide) hPositive).distance (by decide) hBoth
      guarded := by simp [hNot]
      entered := by simp }
  · rename_i hNone
    have hGuarded : Guarded offset n1 n2 maxData :=
      not_not.mp fun hNot => hNone (hMissing.pos_iff.mpr hNot)
    refine (entered_enter hSecond).weaken fun trace hEntered => ?_
    have hReached : trace.hit entry = true := by
      simp [hit, ← Array.any_toList, hEntered.captures]
    exact ⟨hEntered.covers, iff_of_true hReached hGuarded, fun _ => hEntered⟩

namespace Entered

variable {trace : Trace} (h : Entered offset n1 n2 maxData trace)
include h

theorem valuesAt_loop : trace.valuesAt loop =
    (List.range n2.toInt.toNat).map fun i => [Int64.ofNat i, offset, maxData] := by
  have hEntry : decide (entry = loop) = false := by decide
  simp [valuesAt, h.captures, turnsFrom, hEntry, List.filter_map, Function.comp_def]

/-- The point of the loop is captured as often as the loop turns. -/
theorem captureCount_loop : trace.captureCount loop = n2.toInt.toNat := by
  rw [captureCount_eq_length, h.valuesAt_loop, List.length_map, List.length_range]

/-- The turns are numbered from zero on. -/
theorem firsts_loop : (trace.valuesAt loop).map (fun values => values.head?.map Int64.toInt) =
    (List.range n2.toInt.toNat).map fun i : Nat => some (i : Int) := by
  rw [h.valuesAt_loop, List.map_map]
  refine List.map_congr_left fun i hi => ?_
  have hBelow := n2.toInt_lt
  have hTurn : (Int64.ofNat i).toInt = i := by
    rw [List.mem_range] at hi
    exact Int64.toInt_ofNat_of_lt (by omega)
  simp [hTurn]

end Entered

end BindExpands

/-- A run accounts for every point of its subject if it does so for a list with all of them. -/
theorem exists_run_of_covers {subject : Subject} {args : List Int64} {ids : List String}
    (hArity : args.length = subject.arity)
    (hIds : ∀ point ∈ subject.points, point.id ∈ ids)
    (h : Answers True (subject.body args) (·.Covers ids)) :
    ∃ trace, subject.run args = .ok trace ∧
      ∀ point ∈ subject.points, trace.AccountsFor point.id := by
  obtain ⟨trace, hRun, hCovers⟩ := h.exists_answer trivial
  exact ⟨trace, (if_pos hArity).trans hRun, fun point hMem =>
    hCovers.accounted point.id (hIds point hMem)⟩

/-- A run of the linear loop accounts for its exit, whatever its arguments are. -/
theorem run_linearLoop_covers (outer condition xa ya : Int64) :
    (LinearLoop.run outer condition xa ya).Covers [LinearLoop.exit] :=
  covers_empty.capture (by decide) _

/-- A run on arguments between `-2 ^ 60` and `2 ^ 60` comes to its end without an overflow and
accounts for every point of its subject. The copy loop is entered exactly if its seven conditions
hold, and the point in it is captured once for each turn, with the number of the turn first. -/
theorem run_accounts_for_points :
    (∀ subject ∈ all, ∀ args : List Int64, args.length = subject.arity →
      (∀ arg ∈ args, Limited widest arg) →
        ∃ trace, subject.run args = .ok trace ∧
          ∀ point ∈ subject.points, trace.AccountsFor point.id) ∧
    ∀ offset n1 n2 maxData : Int64, (∀ arg ∈ [offset, n1, n2, maxData], Limited widest arg) →
      ∃ trace, bindExpands.run [offset, n1, n2, maxData] = .ok trace ∧
        (trace.hit BindExpands.entry = true ↔ BindExpands.Guarded offset n1 n2 maxData) ∧
        (trace.hit BindExpands.entry = true →
          trace.captureCount BindExpands.loop = (max n2.toInt 0).toNat ∧
            (trace.valuesAt BindExpands.loop).map (fun values => values.head?.map Int64.toInt) =
              (List.range (max n2.toInt 0).toNat).map fun i : Nat => some (i : Int)) := by
  refine ⟨fun subject hSubject args hArity hArgs => ?_, fun offset n1 n2 maxData hArgs => ?_⟩
  · simp only [all, List.mem_cons, List.not_mem_nil, or_false] at hSubject
    rcases hSubject with rfl | rfl | rfl | rfl
    · obtain ⟨a, b, rfl⟩ := List.length_eq_two.mp hArity
      exact exists_run_of_covers hArity (by decide)
        (LessThan.covers_run (hArgs a (by simp)) (hArgs b (by simp)))
    · obtain ⟨a, b, c, rfl⟩ := List.length_eq_three.mp hArity
      exact exists_run_of_covers hArity (by decide)
        (Triangle.covers_run (hArgs a (by simp)) (hArgs b (by simp)) (hArgs c (by simp)))
    · obtain ⟨offset, n1, n2, maxData, rfl⟩ := List.length_eq_four.mp hArity
      have hTold := BindExpands.told_run (hArgs offset (by simp)) (hArgs n1 (by simp))
        (hArgs n2 (by simp)) (hArgs maxData (by simp))
      exact exists_run_of_covers hArity (by decide) (hTold.weaken fun _ h => h.covers)
    · obtain ⟨outer, condition, xa, ya, rfl⟩ := List.length_eq_four.mp hArity
      exact exists_run_of_covers hArity (by decide) (run_linearLoop_covers outer condition xa ya)
  · obtain ⟨trace, hRun, hTold⟩ := (BindExpands.told_run (hArgs offset (by simp))
      (hArgs n1 (by simp)) (hArgs n2 (by simp)) (hArgs maxData (by simp))).exists_answer trivial
    have hTurns : (max n2.toInt 0).toNat = n2.toInt.toNat := by omega
    refine ⟨trace, hRun, hTold.guarded, fun hReached => ?_⟩
    have hEntered := hTold.entered hReached
    rw [hTurns]
    exact ⟨hEntered.captureCount_loop, hEntered.firsts_loop⟩

/-- The largest arguments make no triangle, and a copy of three turns is done. -/
theorem run_accounts_for_points_largest :
    (∀ arg ∈ [1152921504606846976, -1152921504606846976, 1152921504606846976],
        Limited widest arg) ∧
      (∃ trace, triangle.run [1152921504606846976, -1152921504606846976, 1152921504606846976] =
        .ok trace ∧ trace.AccountsFor Triangle.accepted) ∧
      (∀ arg ∈ [1, 2, 3, 3], Limited widest arg) ∧
      ∃ trace, bindExpands.run [1, 2, 3, 3] = .ok trace ∧
        trace.hit BindExpands.entry = true ∧ trace.captureCount BindExpands.loop = 3 := by
  have hSides : ∀ arg ∈ [1152921504606846976, -1152921504606846976, 1152921504606846976],
      Limited widest arg := by
    simp only [List.forall_mem_cons, Limited]
    exact ⟨by decide, by decide, by decide, List.forall_mem_nil _⟩
  have hArgs : ∀ arg ∈ [1, 2, 3, 3], Limited widest arg := by
    simp only [List.forall_mem_cons, Limited]
    exact ⟨by decide, by decide, by decide, by decide, List.forall_mem_nil _⟩
  obtain ⟨hPoints, hCopy⟩ := run_accounts_for_points
  obtain ⟨trace, hRun, hAll⟩ := hPoints triangle (by simp [all]) _ rfl hSides
  obtain ⟨copy, hCopyRun, hEntry, hTurns⟩ := hCopy 1 2 3 3 hArgs
  have hGuarded : BindExpands.Guarded 1 2 3 3 := by constructor <;> decide
  have hReached := hEntry.mpr hGuarded
  exact ⟨hSides, ⟨trace, hRun, hAll ⟨Triangle.accepted, 11⟩ (by decide)⟩, hArgs, copy, hCopyRun,
    hReached, (hTurns hReached).1⟩

end Subject

end WitnessSearch
