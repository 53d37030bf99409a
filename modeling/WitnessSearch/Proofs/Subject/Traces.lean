import WitnessSearch.Proofs.Checked
import WitnessSearch.Proofs.Float.Integers
import WitnessSearch.Subject.Catalogue

/-! What the subjects report. A run that comes to its end leaves a regular trace: every capture at a
point has as many values as the point reports, and no distance is so large that a fitness made from
it could be infinite. On the inputs that are drawn for a subject every run comes to its end, because
no sum, difference or product that it takes leaves the 64-bit range there. -/

namespace WitnessSearch

open Checked FloatRounding

namespace Trace

/-- The captures of a trace have the given numbers of values, and its distances are of limited
size. -/
structure Regular (width : String → Nat) (trace : Trace) : Prop where
  captures : ∀ capture ∈ trace.captures, capture.values.length = width capture.id
  distances : ∀ entry ∈ trace.distances, Within 100 entry.2

variable {width : String → Nat} {trace : Trace}

theorem regular_empty (width : String → Nat) : Trace.empty.Regular width where
  captures _ hMem := absurd hMem (Array.not_mem_empty _)
  distances _ hMem := absurd hMem List.not_mem_nil

/-- A capture of the right width keeps a trace regular. -/
theorem Regular.capture (h : trace.Regular width) {id : String} {values : List Int64}
    (hLength : values.length = width id) : (trace.capture id values).Regular width where
  captures capture hMem := by
    rcases Array.mem_push.mp hMem with hOld | rfl
    · exact h.captures capture hOld
    · exact hLength
  distances := h.distances

/-- A distance that is set replaces one entry and leaves the others. -/
theorem mem_setDistance {id : String} {distance : Float} {entries : List (String × Float)}
    {entry : String × Float} (h : entry ∈ setDistance id distance entries) :
    entry.2 = distance ∨ entry ∈ entries := by
  induction entries with
  | nil => exact .inl (List.mem_singleton.mp h ▸ rfl)
  | cons first rest ih =>
      rw [setDistance] at h
      split at h
      · rcases List.mem_cons.mp h with rfl | hLater
        · exact .inl rfl
        · exact .inr (List.mem_cons_of_mem _ hLater)
      · rcases List.mem_cons.mp h with rfl | hLater
        · exact .inr List.mem_cons_self
        · exact (ih hLater).imp_right (List.mem_cons_of_mem _)

/-- The best distances of a regular trace are within bounds. -/
theorem Regular.bestDistance (h : trace.Regular width) {id : String} {distance : Float}
    (hBest : trace.bestDistance id = some distance) : Within 100 distance := by
  obtain ⟨before, after, hEntries, -⟩ := List.lookup_eq_some_iff.mp hBest
  exact h.distances (id, distance) (hEntries ▸ List.mem_append_cons_self)

theorem within_slack {k : Nat} {distance : Float} (h : Within k distance) :
    Within k (slack distance) := by
  unfold slack
  split
  · exact h
  · exact within_zero k

theorem Regular.distance (h : trace.Regular width) {k : Nat} {distance : Float}
    (hDistance : Within k distance) (hSize : k ≤ 100) (id : String) :
    (trace.distance id distance).Regular width where
  captures := h.captures
  distances entry hMem := by
    have hSlack := within_slack (hDistance.mono hSize)
    rcases mem_setDistance hMem with hNew | hOld
    · rw [hNew]
      split
      · rename_i best hBest
        split
        · exact hSlack
        · exact h.bestDistance hBest
      · exact hSlack
    · exact h.distances entry hOld

theorem hit_eq_isSome (trace : Trace) (id : String) :
    trace.hit id = (trace.firstCapture id).isSome := by
  simp [hit, firstCapture, Array.isSome_find?]

/-- What a regular trace captured first has the width of its point. -/
theorem Regular.firstCapture (h : trace.Regular width) {id : String} {values : List Int64}
    (hFirst : trace.firstCapture id = some values) : values.length = width id := by
  obtain ⟨capture, hFound, rfl⟩ := Option.map_eq_some_iff.mp hFirst
  have hId : capture.id = id := by simpa using Array.find?_some hFound
  rw [h.captures capture (Array.mem_of_find?_eq_some hFound), hId]

end Trace

namespace Subject

def Limited (bound : Int) (x : Int64) : Prop :=
  -bound ≤ x.toInt ∧ x.toInt ≤ bound

theorem limited_of_between {low high x : Int64} (h : low ≤ x ∧ x ≤ high) {bound : Int}
    (hLow : -bound ≤ low.toInt) (hHigh : high.toInt ≤ bound) : Limited bound x :=
  ⟨hLow.trans (Int64.le_iff_toInt_le.mp h.1), (Int64.le_iff_toInt_le.mp h.2).trans hHigh⟩

section Arithmetic

variable {safe : Prop} {a b : Int64} {m n : Int}

theorem answers_limited {fault : Fault} {value : Int} (hValue : safe → -n ≤ value ∧ value ≤ n)
    (hSize : n ≤ 1000) : Answers safe (narrow fault value) fun c => safe → Limited n c := by
  refine (answers_narrow fun hSafe => ?_).weaken fun c hExact hSafe => ?_
  · obtain ⟨hLow, hHigh⟩ := hValue hSafe
    constructor <;> omega
  · rw [Limited, hExact]
    exact hValue hSafe

/-- Within a thousand, a sum of limited numbers does not overflow. It is limited by the sum of the
limits. -/
theorem answers_limited_add (hA : safe → Limited m a) (hB : safe → Limited n b)
    (hSize : m + n ≤ 1000) : Answers safe (add a b) fun c => safe → Limited (m + n) c := by
  refine answers_limited (fun hSafe => ?_) hSize
  obtain ⟨hLow, hHigh⟩ := hA hSafe
  obtain ⟨hLow', hHigh'⟩ := hB hSafe
  constructor <;> omega

/-- Within a thousand, a difference of limited numbers does not overflow. It is limited by the sum
of the limits. -/
theorem answers_limited_sub (hA : safe → Limited m a) (hB : safe → Limited n b)
    (hSize : m + n ≤ 1000) : Answers safe (sub a b) fun c => safe → Limited (m + n) c := by
  refine answers_limited (fun hSafe => ?_) hSize
  obtain ⟨hLow, hHigh⟩ := hA hSafe
  obtain ⟨hLow', hHigh'⟩ := hB hSafe
  constructor <;> omega

theorem answers_limited_double (hA : safe → Limited m a) (hSize : 2 * m ≤ 1000) :
    Answers safe (mul a 2) fun c => safe → Limited (2 * m) c := by
  have hTwo : (2 : Int64).toInt = 2 := by decide
  refine answers_limited (fun hSafe => ?_) hSize
  obtain ⟨hLow, hHigh⟩ := hA hSafe
  rw [hTwo]
  constructor <;> omega

end Arithmetic

section Missing

variable {safe : Prop} {left right : Int64}

/-- What is missing for a strict comparison is the difference and one. -/
theorem gauges_missingToLess (hDifference : safe → InRange (left.toInt - right.toInt))
    (hNext : safe → InRange (left.toInt - right.toInt + 1)) :
    Answers safe (missingToLess left right) (Gauges 63 (left.toInt < right.toInt)) := by
  have hOne : (1 : Int64).toInt = 1 := by decide
  unfold missingToLess
  split
  · rename_i hMet
    exact Answers.pure (gauges_zero _ (Int64.lt_iff_toInt_lt.mp hMet))
  · rename_i hNot
    rw [Int64.lt_iff_toInt_lt] at hNot
    refine Answers.bind (answers_sub hDifference) fun difference hExact => ?_
    refine Answers.bind (answers_add fun hSafe => ?_) fun missing hMissing => ?_
    · rw [hExact, hOne]
      exact hNext hSafe
    have hHigh := missing.toInt_lt
    exact Answers.pure (gauges_ofInt hNot (by omega) (by omega) (by decide))

/-- What is missing for a comparison that allows equality is the difference. -/
theorem gauges_missingToAtMost (hDifference : safe → InRange (left.toInt - right.toInt)) :
    Answers safe (missingToAtMost left right) (Gauges 63 (left.toInt ≤ right.toInt)) := by
  unfold missingToAtMost
  split
  · rename_i hMet
    exact Answers.pure (gauges_zero _ (Int64.le_iff_toInt_le.mp hMet))
  · rename_i hNot
    rw [Int64.le_iff_toInt_le] at hNot
    refine Answers.bind (answers_sub hDifference) fun missing hMissing => ?_
    have hHigh := missing.toInt_lt
    exact Answers.pure (gauges_ofInt hNot (by omega) (by omega) (by decide))

variable {m n : Int}

/-- Limited numbers have a difference that fits, and there is room for one more. -/
theorem inRange_difference (hLeft : Limited m left) (hRight : Limited n right)
    (hRoom : m + n ≤ 0x4000000000000000) :
    InRange (left.toInt - right.toInt) ∧ InRange (left.toInt - right.toInt + 1) := by
  obtain ⟨hLow, hHigh⟩ := hLeft
  obtain ⟨hLow', hHigh'⟩ := hRight
  refine ⟨?_, ?_⟩ <;> constructor <;> omega

variable (hLeft : safe → Limited m left) (hRight : safe → Limited n right)
  (hm : m ≤ 1000) (hn : n ≤ 1000)
include hLeft hRight hm hn

/-- Wherever the distance to being less is answered, it is bounded. -/
theorem answers_missingToLess : Answers safe (missingToLess left right) (Within 63) := by
  have hRange : safe → _ := fun hSafe => inRange_difference (hLeft hSafe) (hRight hSafe) (by omega)
  exact (gauges_missingToLess (fun hSafe => (hRange hSafe).1) fun hSafe => (hRange hSafe).2).weaken
    fun _ hGauges => hGauges.within

theorem answers_missingToAtMost : Answers safe (missingToAtMost left right) (Within 63) := by
  have hRange : safe → _ := fun hSafe => inRange_difference (hLeft hSafe) (hRight hSafe) (by omega)
  exact (gauges_missingToAtMost fun hSafe => (hRange hSafe).1).weaken
    fun _ hGauges => hGauges.within

end Missing

variable {safe : Prop}

namespace LessThan

def width (_ : String) : Nat := 2

theorem answers_run {a b : Int64} (hA : safe → Limited 100 a) (hB : safe → Limited 100 b) :
    Answers safe (run a b) (Trace.Regular width) := by
  have hBound : (100 : Int) ≤ 1000 := by decide
  have hFirst : ∀ id, (Trace.empty.capture id [a, b]).Regular width :=
    fun _ => (Trace.regular_empty _).capture rfl
  simp only [run, pure_bind]
  split
  · refine Answers.bind (answers_missingToAtMost hB hA hBound hBound) fun missing hMissing => ?_
    exact Answers.pure (((hFirst _).distance hMissing (by decide) _).capture rfl)
  · refine Answers.bind (answers_missingToLess hA hB hBound hBound) fun missing hMissing => ?_
    exact Answers.pure (((hFirst _).distance hMissing (by decide) _).capture rfl)

end LessThan

namespace Triangle

def width (_ : String) : Nat := 6

theorem answers_decide {a bc : Int64} {values : List Int64} (hA : safe → Limited 50 a)
    (hBc : safe → Limited 100 bc) (hValues : values.length = 6) :
    Answers safe (decide a bc values) (Trace.Regular width) := by
  have hFirst : ∀ id, (Trace.empty.capture id values).Regular width :=
    fun _ => (Trace.regular_empty _).capture hValues
  unfold decide
  split
  · refine Answers.bind (answers_missingToAtMost hBc hA (by decide) (by decide))
      fun missing hMissing => ?_
    exact Answers.pure ((hFirst _).distance hMissing (by decide) _)
  · refine Answers.bind (answers_missingToLess hA hBc (by decide) (by decide))
      fun missing hMissing => ?_
    exact Answers.pure ((hFirst _).distance hMissing (by decide) _)

theorem answers_decideSecond {a b ac bc : Int64} {values : List Int64}
    (hA : safe → Limited 50 a) (hB : safe → Limited 50 b) (hAc : safe → Limited 100 ac)
    (hBc : safe → Limited 100 bc) (hValues : values.length = 6) :
    Answers safe (decideSecond a b ac bc values) (Trace.Regular width) := by
  unfold decideSecond
  split
  · refine Answers.bind (answers_decide hA hBc hValues) fun trace hTrace => ?_
    refine Answers.bind (answers_missingToAtMost hAc hB (by decide) (by decide))
      fun missing hMissing => ?_
    exact Answers.pure (hTrace.distance hMissing (by decide) _)
  · refine Answers.bind (answers_missingToLess hB hAc (by decide) (by decide))
      fun missing hMissing => ?_
    have hFirst : (Trace.empty.capture rejectedSecond values).Regular width :=
      (Trace.regular_empty _).capture hValues
    exact Answers.pure ((hFirst.distance hMissing (by decide) _).distance hMissing (by decide) _)

theorem answers_run {a b c : Int64} (hA : safe → Limited 50 a) (hB : safe → Limited 50 b)
    (hC : safe → Limited 50 c) : Answers safe (run a b c) (Trace.Regular width) := by
  refine Answers.bind (answers_limited_add hA hB (by decide)) fun ab hAb => ?_
  refine Answers.bind (answers_limited_add hA hC (by decide)) fun ac hAc => ?_
  refine Answers.bind (answers_limited_add hB hC (by decide)) fun bc hBc => ?_
  dsimp only
  split
  · refine Answers.bind (answers_decideSecond hA hB hAc hBc rfl) fun trace hTrace => ?_
    refine Answers.bind (answers_missingToAtMost hAb hC (by decide) (by decide))
      fun missing hMissing => ?_
    exact Answers.pure (hTrace.distance hMissing (by decide) _)
  · refine Answers.bind (answers_missingToLess hC hAb (by decide) (by decide))
      fun missing hMissing => ?_
    have hFirst : (Trace.empty.capture rejectedFirst [a, b, c, ab, ac, bc]).Regular width :=
      (Trace.regular_empty _).capture rfl
    exact Answers.pure <| ((hFirst.distance hMissing (by decide) _).distance hMissing
      (by decide) _).distance hMissing (by decide) _

end Triangle

namespace BindExpands

def width (id : String) : Nat :=
  if id = entry then 4 else 3

variable {offset n1 n2 maxData : Int64}

theorem answers_guard (hOffset : safe → Limited 40 offset) (hFirst : safe → Limited 40 n1)
    (hSecond : safe → Limited 40 n2) (hData : safe → Limited 40 maxData) :
    Answers safe (guard offset n1 n2 maxData) (Within 69) := by
  have hZero : safe → Limited 40 0 := fun _ => ⟨by decide, by decide⟩
  have hSmall : (40 : Int) ≤ 1000 := by decide
  have hNext : ∀ {left right : Int64} {n : Int}, (safe → Limited 40 left) →
      (safe → Limited n right) → n ≤ 1000 →
      Answers safe (missingToAtMost left right) (Within 63) :=
    fun hLeft hRight => answers_missingToAtMost hLeft hRight hSmall
  refine Answers.bind (hNext hZero hData hSmall) fun d1 h1 => ?_
  refine Answers.bind (hNext hZero hFirst hSmall) fun d2 h2 => ?_
  refine Answers.bind (hNext hZero hSecond hSmall) fun d3 h3 => ?_
  refine Answers.bind (hNext hZero hOffset hSmall) fun d4 h4 => ?_
  refine Answers.bind (answers_limited_double hData (by decide)) fun twice hTwice => ?_
  refine Answers.bind (hNext hFirst hTwice (by decide)) fun d5 h5 => ?_
  refine Answers.bind (hNext hOffset hFirst hSmall) fun d6 h6 => ?_
  refine Answers.bind (answers_limited_double hData (by decide)) fun twice hTwice => ?_
  refine Answers.bind (answers_limited_sub hTwice hFirst (by decide)) fun rest hRest => ?_
  refine Answers.bind (hNext hSecond hRest (by decide)) fun d7 h7 => Answers.pure ?_
  have hSum : Within 66 (d1 + d2 + d3 + d4) :=
    ((h1.add h2 (by decide) (by decide)).add h3 (by decide) (by decide)).add h4 (by decide)
      (by decide)
  exact ((hSum.add h5 (by decide) (by decide)).add h6 (by decide) (by decide)).add h7 (by decide)
    (by decide)

/-- Every turn of the loop captures three values. -/
theorem regular_loop (turns : List Nat) {trace : Trace} (hTrace : trace.Regular width) :
    (turns.foldl (fun trace i => trace.capture loop [Int64.ofNat i, offset, maxData])
      trace).Regular width := by
  induction turns generalizing trace with
  | nil => exact hTrace
  | cons i turns ih => exact ih (hTrace.capture rfl)

theorem answers_enter (hSecond : safe → Limited 40 n2) :
    Answers safe (enter offset n1 n2 maxData) (Trace.Regular width) := by
  have hZero : safe → Limited 40 0 := fun _ => ⟨by decide, by decide⟩
  have hEntry : (Trace.empty.capture entry [offset, n1, n2, maxData]).Regular width :=
    (Trace.regular_empty _).capture rfl
  simp only [enter, pure_bind]
  split
  · refine Answers.bind (answers_missingToLess hZero hSecond (by decide) (by decide))
      fun missing hMissing => ?_
    exact Answers.pure (regular_loop _ (hEntry.distance hMissing (by decide) _))
  · exact Answers.pure (regular_loop _ hEntry)

theorem answers_run (hOffset : safe → Limited 40 offset) (hFirst : safe → Limited 40 n1)
    (hSecond : safe → Limited 40 n2) (hData : safe → Limited 40 maxData) :
    Answers safe (run offset n1 n2 maxData) (Trace.Regular width) := by
  have hZero : safe → Limited 40 0 := fun _ => ⟨by decide, by decide⟩
  refine Answers.bind (answers_guard hOffset hFirst hSecond hData) fun missing hMissing => ?_
  dsimp only
  split
  · refine Answers.bind (answers_missingToLess hZero hSecond (by decide) (by decide))
      fun more hMore => ?_
    exact Answers.pure (((Trace.regular_empty _).distance hMissing (by decide) _).distance
      (hMissing.add hMore (by decide) (by decide)) (by decide) _)
  · exact answers_enter hSecond

end BindExpands

namespace LinearLoop

def width (_ : String) : Nat := 2

theorem regular_run (outer condition xa ya : Int64) :
    (run outer condition xa ya).Regular width :=
  (Trace.regular_empty _).capture rfl

end LinearLoop

/-- Arguments in the range that inputs of a subject are drawn from. -/
def Admits (subject : Subject) (args : List Int64) : Prop :=
  ∀ arg ∈ args, subject.low ≤ arg ∧ arg ≤ subject.high

/-- What the search counts on in a subject. The width is how many values are captured at a
point. -/
structure Tame (subject : Subject) (width : String → Nat) : Prop where
  ordered : subject.low ≤ subject.high
  span : InRange (subject.high.toInt - subject.low.toInt)
  small : wordBytes * subject.arity ≤ listBytes
  few : subject.points.length ≤ 4
  body : ∀ args, args.length = subject.arity →
    Answers (subject.Admits args) (subject.body args) (Trace.Regular width)

theorem limited_arg {subject : Subject} {args : List Int64} {bound : Int}
    (hLow : -bound ≤ subject.low.toInt) (hHigh : subject.high.toInt ≤ bound) {arg : Int64}
    (hArg : arg ∈ args) (hArgs : subject.Admits args) : Limited bound arg :=
  limited_of_between (hArgs arg hArg) hLow hHigh

theorem tame_lessThan : lessThan.Tame LessThan.width where
  ordered := by decide
  span := by constructor <;> decide
  small := by decide
  few := by decide
  body args hLength := by
    obtain ⟨a, b, rfl⟩ := List.length_eq_two.mp hLength
    have hLimited : ∀ arg ∈ [a, b], lessThan.Admits [a, b] → Limited 100 arg :=
      fun _ => limited_arg (by decide) (by decide)
    exact LessThan.answers_run (hLimited a (by simp)) (hLimited b (by simp))

theorem tame_triangle : triangle.Tame Triangle.width where
  ordered := by decide
  span := by constructor <;> decide
  small := by decide
  few := by decide
  body args hLength := by
    obtain ⟨a, b, c, rfl⟩ := List.length_eq_three.mp hLength
    have hLimited : ∀ arg ∈ [a, b, c], triangle.Admits [a, b, c] → Limited 50 arg :=
      fun _ => limited_arg (by decide) (by decide)
    exact Triangle.answers_run (hLimited a (by simp)) (hLimited b (by simp))
      (hLimited c (by simp))

theorem tame_bindExpands : bindExpands.Tame BindExpands.width where
  ordered := by decide
  span := by constructor <;> decide
  small := by decide
  few := by decide
  body args hLength := by
    obtain ⟨offset, n1, n2, maxData, rfl⟩ := List.length_eq_four.mp hLength
    have hLimited : ∀ arg ∈ [offset, n1, n2, maxData],
        bindExpands.Admits [offset, n1, n2, maxData] → Limited 40 arg :=
      fun _ => limited_arg (by decide) (by decide)
    exact BindExpands.answers_run (hLimited offset (by simp)) (hLimited n1 (by simp))
      (hLimited n2 (by simp)) (hLimited maxData (by simp))

theorem tame_linearLoop : linearLoop.Tame LinearLoop.width where
  ordered := by decide
  span := by constructor <;> decide
  small := by decide
  few := by decide
  body args hLength := by
    obtain ⟨outer, condition, xa, ya, rfl⟩ := List.length_eq_four.mp hLength
    exact LinearLoop.regular_run outer condition xa ya

/-- Every subject is tame, each with its own widths. -/
theorem exists_tame {subject : Subject} (h : subject ∈ all) : ∃ width, subject.Tame width := by
  simp only [all, List.mem_cons, List.not_mem_nil, or_false] at h
  rcases h with rfl | rfl | rfl | rfl
  · exact ⟨_, tame_lessThan⟩
  · exact ⟨_, tame_triangle⟩
  · exact ⟨_, tame_bindExpands⟩
  · exact ⟨_, tame_linearLoop⟩

end Subject

end WitnessSearch
