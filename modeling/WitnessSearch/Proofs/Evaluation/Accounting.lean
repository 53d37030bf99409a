import Mathlib.Data.List.Duplicate
import WitnessSearch.Proofs.Evaluation
import WitnessSearch.Proofs.Evaluation.Books
import WitnessSearch.Proofs.Evaluation.Works

/-! How often the executor is bothered. Every run goes back to a pair that was unknown, so a pair
could only be run again inside the call that runs it first. That happens in a batch that names a
goal twice, since it looks all its pairs up before it runs the first of them, and nowhere else. -/

namespace WitnessSearch.Evaluator

variable {τ : Type} [HasCode τ]

section Repetition

/-- The pairs of one goal of a batch that nothing is stored for. -/
def missingFor (memo : Memo) (chromosomes : List (Chromosome τ)) (goal : Goal) : List Pair :=
  memo.unknown ((firsts [] (named chromosomes)).map fun candidate => (candidate.1, goal))

variable {memo : Memo} {chromosomes : List (Chromosome τ)}

theorem missing_eq (memo : Memo) (chromosomes : List (Chromosome τ)) (goals : List Goal) :
    memo.missing chromosomes goals = goals.flatMap (missingFor memo chromosomes) :=
  List.filter_flatMap

/-- A pair is missing for a goal if the memo has nothing for it and some candidate has its
fingerprint. -/
theorem mem_missingFor {goal : Goal} {p : Pair} :
    p ∈ missingFor memo chromosomes goal ↔
      p.2 = goal ∧ memo.peek? p.1 p.2 = none ∧ ∃ c ∈ chromosomes, c.fingerprint = p.1 := by
  rw [missingFor, Memo.mem_unknown, List.mem_map]
  constructor
  · rintro ⟨⟨candidate, hMem, rfl⟩, hNone⟩
    obtain ⟨c, hc, rfl⟩ := List.mem_map.mp (mem_firsts_of_mem hMem)
    exact ⟨rfl, hNone, c, hc, rfl⟩
  · rintro ⟨rfl, hNone, c, hc, hSame⟩
    obtain ⟨first, hFirst, hName⟩ := exists_mem_firsts
      (List.mem_map_of_mem hc : (c.fingerprint, c) ∈ named chromosomes) List.not_mem_nil
    exact ⟨⟨first, hFirst, Prod.ext (hName.trans hSame) rfl⟩, hNone⟩

/-- Nothing is missing for a goal if every candidate is known for it. -/
theorem missingFor_eq_nil_iff {goal : Goal} :
    missingFor memo chromosomes goal = [] ↔
      ∀ c ∈ chromosomes, memo.peek? c.fingerprint goal ≠ none := by
  simp only [List.eq_nil_iff_forall_not_mem, mem_missingFor]
  constructor
  · exact fun h c hc hNone => h (c.fingerprint, goal) ⟨rfl, hNone, c, hc, rfl⟩
  · rintro h p ⟨rfl, hNone, c, hc, hSame⟩
    exact h c hc (hSame ▸ hNone)

/-- For one goal no pair is missing twice, as candidates with one fingerprint are one candidate. -/
theorem nodup_missingFor (memo : Memo) (chromosomes : List (Chromosome τ)) (goal : Goal) :
    (missingFor memo chromosomes goal).Nodup := by
  refine List.Nodup.filter _ (List.Nodup.of_map Prod.fst ?_)
  rw [List.map_map]
  exact (nodup_firsts [] (named chromosomes)).1

/-- The rows of one batch overlap only where a goal is named again. -/
theorem pairwise_disjoint_missingFor_iff {goals : List Goal} :
    goals.Pairwise (Function.onFun List.Disjoint (missingFor memo chromosomes)) ↔
      ∀ goal, List.Duplicate goal goals → missingFor memo chromosomes goal = [] := by
  induction goals with
  | nil => simp
  | cons first rest ih =>
      rw [List.pairwise_cons, ih]
      constructor
      · rintro ⟨hFirst, hRest⟩ goal hTwice
        rcases List.duplicate_cons_iff.mp hTwice with ⟨rfl, hMem⟩ | hLater
        · exact List.eq_nil_iff_forall_not_mem.mpr fun p hp => hFirst first hMem hp hp
        · exact hRest goal hLater
      · intro h
        refine ⟨?_, fun goal hTwice => h goal (hTwice.duplicate_cons first)⟩
        intro goal hMem p hp hp'
        obtain rfl : first = goal :=
          (mem_missingFor.mp hp).1.symm.trans (mem_missingFor.mp hp').1
        rw [h first (List.duplicate_cons_iff.mpr (.inl ⟨rfl, hMem⟩))] at hp
        cases hp

/-- What a batch runs has no pair twice, unless it names a goal twice and lacks a pair of it. -/
theorem nodup_missing_iff {goals : List Goal} :
    (memo.missing chromosomes goals).Nodup ↔
      ¬∃ goal, List.Duplicate goal goals ∧
        ∃ c ∈ chromosomes, memo.peek? c.fingerprint goal = none := by
  rw [missing_eq, List.nodup_flatMap, pairwise_disjoint_missingFor_iff]
  simp only [missingFor_eq_nil_iff, nodup_missingFor, implies_true, true_and]
  push Not
  rfl

end Repetition

section Thrift

variable {before : Evaluator} {executor : Executor τ}

/-- Every pair that was run was unknown before, and none was run twice. -/
def Thrifty (before after : Evaluator) : Prop :=
  ∃ pairs, Served before pairs after ∧ (∀ p ∈ pairs, before.memo.peek? p.1 p.2 = none) ∧
    pairs.Nodup

omit [HasCode τ] in
/-- Pairs that are unknown after a request are none of those that the request had run. So
repetitions can only come from within the two. -/
theorem nodup_append_of_served {a b : Evaluator} {first later : List Pair} (h : Served a first b)
    (hUnknown : ∀ p ∈ later, b.memo.peek? p.1 p.2 = none) :
    (first ++ later).Nodup ↔ first.Nodup ∧ later.Nodup := by
  rw [List.nodup_append']
  refine ⟨fun h => ⟨h.1, h.2.1⟩, fun h' => ⟨h'.1, h'.2, fun p hFirst hLater => ?_⟩⟩
  have hKnown := (h.isSome p).mpr (.inr hFirst)
  rw [hUnknown p hLater] at hKnown
  cases hKnown

omit [HasCode τ] in
theorem Thrifty.refl (evaluator : Evaluator) : Thrifty evaluator evaluator :=
  ⟨[], Served.refl evaluator, nofun, .nil⟩

omit [HasCode τ] in
/-- An evaluator that was thrifty twice was thrifty over the whole time. -/
theorem Thrifty.trans {a b c : Evaluator} (h : Thrifty a b) (hNext : Thrifty b c) :
    Thrifty a c := by
  obtain ⟨first, hFirst, hUnknown, hNodup⟩ := h
  obtain ⟨later, hLater, hUnknown', hNodup'⟩ := hNext
  refine ⟨first ++ later, hFirst.trans hLater, ?_,
    (nodup_append_of_served hFirst hUnknown').mpr ⟨hNodup, hNodup'⟩⟩
  intro p hp
  rcases List.mem_append.mp hp with hp | hp
  · exact hUnknown p hp
  · by_contra hKnown
    have hStill := (hFirst.isSome p).mpr (.inl (Option.isSome_iff_ne_none.mpr hKnown))
    rw [hUnknown' p hp] at hStill
    cases hStill

omit [HasCode τ] in
/-- An evaluator that was thrifty from the beginning ran no pair twice, and its counts agree with
the number of pairs that it ran. -/
theorem Thrifty.of_empty {evaluator : Evaluator} (h : Thrifty .empty evaluator) :
    evaluator.calls.Nodup ∧ evaluator.executions = evaluator.calls.length ∧
      evaluator.memo.misses = evaluator.calls.length ∧
      evaluator.memo.size = evaluator.calls.length := by
  obtain ⟨pairs, hServed, -, hNodup⟩ := h
  have hCalls : evaluator.calls = pairs.reverse := by rw [hServed.calls]; exact List.append_nil _
  rw [hCalls, List.length_reverse, List.nodup_reverse]
  refine ⟨hNodup, ?_, ?_, ?_⟩
  · exact hServed.executions.trans (Nat.zero_add _)
  · exact hServed.misses.trans (Nat.zero_add _)
  · rw [hServed.size_of_empty, hNodup.dedup]

omit [HasCode τ] in
/-- The memo of a thrifty evaluator never shrinks. -/
theorem Thrifty.size_le {before after : Evaluator} (h : Thrifty before after) :
    before.memo.size ≤ after.memo.size := by
  obtain ⟨pairs, hServed, -⟩ := h
  exact Memo.size_le_size fun p hp => (hServed.isSome p).mpr (.inl hp)

/-- Running each of the unknown pairs once is thrifty. -/
theorem thrifty_of_unknown {before after : Evaluator} {asked : List Pair}
    (h : Served before (before.memo.unknown asked) after)
    (hNodup : (before.memo.unknown asked).Nodup) : Thrifty before after :=
  ⟨_, h, fun _ hp => (Memo.mem_unknown.mp hp).2, hNodup⟩

/-- Being thrifty since some moment is kept by whatever is thrifty in itself. -/
theorem keeps_thrifty {α : Type} {run : Evaluation α}
    (h : ∀ before, Ensures (· = before) run fun _ => Thrifty before) :
    Keeps (Thrifty before) run fun _ => True :=
  fun middle _ _ hMiddle hRun => ⟨trivial, hMiddle.trans (h middle rfl hRun)⟩

/-- Evaluating a single pair is thrifty, as the pair is run only if it is unknown. -/
theorem keeps_evaluate_thrifty (executor : Executor τ) (chromosome : Chromosome τ) (goal : Goal) :
    Keeps (Thrifty before) (evaluate executor chromosome goal) fun _ => True :=
  keeps_thrifty fun _ => (ensures_evaluate executor chromosome goal).weaken fun _ _ h =>
    thrifty_of_unknown h (List.Nodup.filter _ (List.nodup_singleton _))

/-- If no goal is named twice, no pair is missing twice. -/
theorem nodup_missing_of_nodup (memo : Memo) (chromosomes : List (Chromosome τ)) {goals : List Goal}
    (hGoals : goals.Nodup) : (memo.missing chromosomes goals).Nodup :=
  nodup_missing_iff.mpr fun ⟨_, hTwice, _⟩ => hTwice.not_nodup hGoals

/-- A batch whose goals are all different is thrifty. With a goal named twice it would not be. -/
theorem keeps_evaluateBatch_thrifty (executor : Executor τ) (chromosomes : List (Chromosome τ))
    {goals : List Goal} (hGoals : goals.Nodup) :
    Keeps (Thrifty before) (evaluateBatch executor chromosomes goals) fun _ => True :=
  keeps_thrifty fun _ => (ensures_evaluateBatch executor chromosomes goals).weaken fun _ _ h =>
    thrifty_of_unknown h (nodup_missing_of_nodup _ chromosomes hGoals)

/-- A matrix whose goals are all different is thrifty. -/
theorem keeps_fitnessMatrix_thrifty (executor : Executor τ) (chromosomes : List (Chromosome τ))
    {goals : List Goal} (hGoals : goals.Nodup) :
    Keeps (Thrifty before) (fitnessMatrix executor chromosomes goals) fun _ => True :=
  keeps_thrifty fun _ => (ensures_fitnessMatrix executor chromosomes goals).weaken fun _ _ h =>
    thrifty_of_unknown h (nodup_missing_of_nodup _ chromosomes hGoals)

/-- Refreshing evaluates candidates one by one, so it is thrifty. -/
theorem keeps_refresh_thrifty (executor : Executor τ) (goal : Goal)
    (candidates : List (Evaluated τ)) :
    Keeps (Thrifty before) (Diversity.refresh executor goal candidates) fun _ => True :=
  Keeps.weaken (Diversity.keeps_rebound (fun _ _ => True) (fun _ _ _ => trivial)
    fun candidate _ => keeps_evaluate_thrifty executor candidate.chromosome goal) fun _ _ => trivial

end Thrift

section Sessions

variable {before : Evaluator}

/-- A request has a pair run twice: it names a goal twice and lacks an execution for it. -/
def Request.RunsTwice (memo : Memo) : Request τ → Prop
  | .batch chromosomes goals | .matrix chromosomes goals =>
    ∃ goal, List.Duplicate goal goals ∧ ∃ c ∈ chromosomes, memo.peek? c.fingerprint goal = none
  | .evaluate .. | .refresh .. => False

/-- What a request has run was unknown when it came, and comes twice only for the one reason. -/
theorem ensures_perform (executor : Executor τ) (request : Request τ) :
    Ensures (· = before) (request.perform executor) fun _ after =>
      ∃ pairs, Served before pairs after ∧ (∀ p ∈ pairs, before.memo.peek? p.1 p.2 = none) ∧
        (pairs.Nodup ↔ ¬request.RunsTwice before.memo) := by
  have hThrifty : ∀ {after}, Thrifty before after → ∃ pairs, Served before pairs after ∧
      (∀ p ∈ pairs, before.memo.peek? p.1 p.2 = none) ∧ (pairs.Nodup ↔ ¬False) :=
    fun ⟨pairs, hServed, hUnknown, hNodup⟩ =>
      ⟨pairs, hServed, hUnknown, fun _ => not_false, fun _ => hNodup⟩
  have hBatch : ∀ {chromosomes : List (Chromosome τ)} {goals after},
      Served before (before.memo.missing chromosomes goals) after → ∃ pairs,
        Served before pairs after ∧ (∀ p ∈ pairs, before.memo.peek? p.1 p.2 = none) ∧
        (pairs.Nodup ↔ ¬∃ goal, List.Duplicate goal goals ∧
          ∃ c ∈ chromosomes, before.memo.peek? c.fingerprint goal = none) :=
    fun h => ⟨_, h, fun _ hp => (Memo.mem_unknown.mp hp).2, nodup_missing_iff⟩
  cases request with
  | evaluate chromosome goal =>
      refine Ensures.bind (ensures_evaluate executor chromosome goal) fun _ => ?_
      exact Ensures.pure fun _ h => hThrifty <|
        thrifty_of_unknown h (List.Nodup.filter _ (List.nodup_singleton _))
  | batch chromosomes goals =>
      refine Ensures.bind (ensures_evaluateBatch executor chromosomes goals) fun _ => ?_
      exact Ensures.pure fun _ h => hBatch h
  | matrix chromosomes goals =>
      refine Ensures.bind (ensures_fitnessMatrix executor chromosomes goals) fun _ => ?_
      exact Ensures.pure fun _ h => hBatch h
  | refresh goal candidates =>
      have hKeeps : Keeps (Thrifty before) (Diversity.refresh executor goal candidates)
          fun _ => True := keeps_refresh_thrifty executor goal candidates
      refine Ensures.bind (Ensures.strengthen hKeeps ?_) fun _ => ?_
      · rintro _ rfl
        exact Thrifty.refl _
      · exact Ensures.pure fun _ h => hThrifty h.2

/-- A session hands over the pairs that its requests lack, one request after the other. What a
request has run was unknown before, so no pair of an earlier request is among it. -/
theorem Session.served {executors : Executor τ → Prop} {exchanges : List (Exchange τ)}
    {evaluator : Evaluator} (h : Session executors exchanges evaluator) :
    ∃ pairs, Served .empty pairs evaluator ∧
      (pairs.Nodup ↔ ∀ exchange ∈ exchanges, ¬exchange.request.RunsTwice exchange.memo) := by
  induction h with
  | opened => exact ⟨[], Served.refl _, by simp⟩
  | asked _ _ _ last ih =>
      obtain ⟨earlier, hEarlier, hOnce⟩ := ih
      obtain ⟨pairs, hServed, hUnknown, hOnceMore⟩ := ensures_perform _ _ rfl last
      refine ⟨earlier ++ pairs, hEarlier.trans hServed, ?_⟩
      rw [nodup_append_of_served hEarlier hUnknown, hOnce, hOnceMore]
      simp [or_imp, forall_and]

/-- No pair is run twice in a session, and the number of runs is the size of the memo, as long as no
batch names a goal twice that it has to run a candidate for. If one does, neither holds from then
on. -/
theorem session_runs_once_iff {executors : Executor τ → Prop} {exchanges : List (Exchange τ)}
    {evaluator : Evaluator} (h : Session executors exchanges evaluator) :
    evaluator.executions = evaluator.calls.length ∧
      (∀ p : Pair, p ∈ evaluator.calls ↔ (evaluator.memo.peek? p.1 p.2).isSome) ∧
      (evaluator.calls.Nodup ↔
        ∀ exchange ∈ exchanges, ¬exchange.request.RunsTwice exchange.memo) ∧
      (evaluator.executions = evaluator.memo.size ↔
        ∀ exchange ∈ exchanges, ¬exchange.request.RunsTwice exchange.memo) := by
  obtain ⟨pairs, hServed, hOnce⟩ := h.served
  have hCalls : evaluator.calls = pairs.reverse := by rw [hServed.calls]; exact List.append_nil _
  have hExecutions : evaluator.executions = pairs.length :=
    hServed.executions.trans (Nat.zero_add _)
  refine ⟨?_, ?_, ?_, ?_⟩
  · rw [hExecutions, hCalls, List.length_reverse]
  · intro p
    rw [hCalls, List.mem_reverse, hServed.isSome p]
    simp [empty]
  · rw [hCalls, List.nodup_reverse, hOnce]
  · rw [hExecutions, hServed.size_of_empty, ← hOnce, ← List.dedup_eq_self, eq_comm]
    exact (List.dedup_sublist pairs).length_eq

section Sample

def missAll : Executor InputVector :=
  ⟨fun _ _ => .ok (.ok ⟨1.0, none⟩)⟩

theorem missAll_answers (chromosome : Chromosome InputVector) (goal : Goal) :
    ∃ answer, missAll.execute chromosome goal = .ok answer :=
  ⟨_, rfl⟩

/-- A batch of one candidate that names its goal twice has the candidate run twice, but stored
once. -/
theorem exists_pair_run_twice :
    ∃ (answer : Answer InputVector) (evaluator : Evaluator),
      (Request.batch [sampleCall] [sampleGoal 1, sampleGoal 1]).perform missAll .empty =
        .ok answer evaluator ∧
      evaluator.calls =
        [(sampleCall.fingerprint, sampleGoal 1), (sampleCall.fingerprint, sampleGoal 1)] ∧
      evaluator.executions = 2 ∧ evaluator.memo.size = 1 := by
  have hMissing : Memo.empty.missing [sampleCall] [sampleGoal 1, sampleGoal 1] =
      [(sampleCall.fingerprint, sampleGoal 1), (sampleCall.fingerprint, sampleGoal 1)] := by
    simp [Memo.missing, Memo.unknown, named, firsts]
  have hBatch : Ensures (· = .empty)
      ((Request.batch [sampleCall] [sampleGoal 1, sampleGoal 1]).perform missAll) fun _ =>
        Served .empty (Memo.empty.missing [sampleCall] [sampleGoal 1, sampleGoal 1]) :=
    Ensures.bind (ensures_evaluateBatch missAll [sampleCall] [sampleGoal 1, sampleGoal 1]) fun _ =>
      Ensures.pure fun _ h => h
  obtain ⟨answer, evaluator, hRun⟩ := (works_perform missAll
    (.batch [sampleCall] [sampleGoal 1, sampleGoal 1])).exists_answer missAll_answers
  have hServed := hBatch rfl hRun
  rw [hMissing] at hServed
  refine ⟨answer, evaluator, hRun, ?_, ?_, ?_⟩
  · exact hServed.calls.trans rfl
  · exact hServed.executions.trans rfl
  · rw [hServed.size_of_empty, List.dedup_cons_of_mem List.mem_cons_self]
    rfl

/-- When the candidate has been evaluated before, naming the goal twice does no harm. -/
theorem session_runs_once_iff_recalled :
    ∃ (first later : Exchange InputVector) (evaluator : Evaluator),
      Session (fun _ => True) [first, later] evaluator ∧
      later.request = .batch [sampleCall] [sampleGoal 1, sampleGoal 1] ∧
      evaluator.calls.Nodup ∧ evaluator.executions = evaluator.memo.size := by
  have hEvaluate : Ensures (· = .empty)
      ((Request.evaluate sampleCall (sampleGoal 1)).perform missAll) fun _ =>
        Served .empty (Memo.empty.unknown [(sampleCall.fingerprint, sampleGoal 1)]) :=
    Ensures.bind (ensures_evaluate missAll sampleCall (sampleGoal 1)) fun _ =>
      Ensures.pure fun _ h => h
  obtain ⟨first, middle, hFirst⟩ := (works_perform missAll
    (.evaluate sampleCall (sampleGoal 1))).exists_answer missAll_answers
  have hServed := hEvaluate rfl hFirst
  have hKnown : middle.memo.peek? sampleCall.fingerprint (sampleGoal 1) ≠ none := by
    rw [← Option.isSome_iff_ne_none]
    exact (hServed.isSome (sampleCall.fingerprint, sampleGoal 1)).mpr (by simp [Memo.mem_unknown])
  obtain ⟨later, evaluator, hLater⟩ := (works_perform missAll
    (.batch [sampleCall] [sampleGoal 1, sampleGoal 1])).exists_answer missAll_answers
  have hSession : Session (fun _ => True) [⟨.empty, .evaluate sampleCall (sampleGoal 1), first⟩,
      ⟨middle.memo, .batch [sampleCall] [sampleGoal 1, sampleGoal 1], later⟩] evaluator :=
    (Session.opened.asked trivial (List.nil_subset _) hFirst).asked trivial (List.nil_subset _)
      hLater
  obtain ⟨-, -, hCalls, hSize⟩ := session_runs_once_iff hSession
  have hOnce : ∀ exchange ∈ ([⟨.empty, .evaluate sampleCall (sampleGoal 1), first⟩,
      ⟨middle.memo, .batch [sampleCall] [sampleGoal 1, sampleGoal 1], later⟩] :
        List (Exchange InputVector)), ¬exchange.request.RunsTwice exchange.memo := by
    simp only [List.forall_mem_cons]
    refine ⟨not_false, ?_, nofun⟩
    rintro ⟨goal, hTwice, c, hMem, hNone⟩
    obtain rfl := List.mem_singleton.mp hMem
    obtain rfl : goal = sampleGoal 1 := by simpa using hTwice.mem
    exact hKnown hNone
  exact ⟨_, _, evaluator, hSession, rfl, hCalls.mpr hOnce, hSize.mpr hOnce⟩

end Sample

end Sessions

end WitnessSearch.Evaluator
