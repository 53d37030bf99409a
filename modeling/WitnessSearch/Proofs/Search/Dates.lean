import WitnessSearch.Proofs.Archive.Tally
import WitnessSearch.Proofs.Search.Course

/-! Two records of one event. A witness is dated by the generation the search was in when it was
offered, and the history has one entry for each evaluated population. The count of generations goes
up after a step, so the witnesses of the first step still carry the date of the start, and the dates
stay one behind the entries from then on. -/

namespace WitnessSearch

def Archive.datedCount {τ : Type} (archive : Archive τ) (generation : Nat) : Nat :=
  archive.allWitnesses.countP fun witness => witness.generation = generation

namespace Search

variable {ρ τ : Type} [HasCode τ]

section Dating

variable {before : Search ρ τ} {accepted : Nat}

/-- A search in the middle of its offers. As many witnesses were added as were accepted, and all of
them carry the date of the search. -/
structure Dating (before : Search ρ τ) (accepted : Nat) (search : Search ρ τ) : Prop where
  ascending : Goal.Ascending search.archive.goals
  generation : search.generation = before.generation
  datedCount : ∀ generation, search.archive.datedCount generation =
    before.archive.datedCount generation + if generation = before.generation then accepted else 0

omit [HasCode τ] in
theorem Dating.refl {search : Search ρ τ} (h : Goal.Ascending search.archive.goals) :
    Dating search 0 search :=
  ⟨h, rfl, fun _ => by simp⟩

theorem tracks_dating :
    Tracks (fun _ => True) (fun _ _ => True) fun accepted => Dating before accepted where
  insulated _ := ⟨fun _ => trivial, fun _ _ h _ => { h with }⟩
  offers {accepted search goal candidate} h _ := by
    refine ⟨?_, h.generation, fun generation => ?_⟩
    · rw [Archive.offer_goals _ _ _ _ _ h.ascending]
      exact Goal.ascending_insertSorted h.ascending goal
    · have hCount := Archive.countP_offer goal candidate.chromosome
        candidate.execution.observation search.generation
        (fun witness => witness.generation = generation) h.ascending
      have hBefore := h.datedCount generation
      simp only [Archive.datedCount, Archive.offered, h.generation, decide_eq_true_eq]
        at hCount hBefore ⊢
      rw [hCount, hBefore]
      by_cases hDate : before.generation = generation
      · simp only [hDate, ↓reduceIte]
        omega
      · simp only [hDate, Ne.symm hDate, ↓reduceIte]

end Dating

/-- The history has one entry more, and that many witnesses of the given date were added. -/
def Dates (before : Search ρ τ) (generation : Nat) (after : Search ρ τ) : Prop :=
  ∃ accepted, after.history.accepted = before.history.accepted ++ [accepted] ∧
    ∀ date, after.archive.datedCount date =
      before.archive.datedCount date + if date = generation then accepted else 0

variable [RandomSource ρ] [Variation ρ τ] {problem : Problem ρ τ}

/-- A pass dates all that it accepts with the generation it found. -/
theorem Stages.Lead.dates {candidates next : List (Chromosome τ)} {before after : Search ρ τ}
    {stages : Stages ρ τ} (h : stages.Lead problem candidates before next after)
    (hAscending : Goal.Ascending before.archive.goals) (hGoals : before.remaining.Nodup) :
    Dates before before.generation after := by
  have hRefresh : ∀ entry ∈ before.remaining.zip stages.rows,
      Keeps (fun _ => True) (Diversity.refresh problem.executor entry.1 entry.2) fun covering =>
        ∀ candidate ∈ covering, True :=
    fun _ _ _ _ _ _ _ => ⟨fun _ _ => trivial, trivial⟩
  let judged : Search ρ τ := { before with evaluator := stages.evaluator }
  have hJudged : Dating judged 0 judged := Dating.refl hAscending
  have hOffered := tracks_dating.ensures_inductions 0 hRefresh hJudged h.offers
  have hArchive : after.archive = stages.offered.archive := by rw [h.after_eq hGoals]
  refine ⟨acceptedBy stages.inductions, ?_, ?_⟩
  · obtain ⟨hBeside, -⟩ := h.exists_fresh
    cases h.recorded
    rw [hBeside.aside, h.offered_eq hGoals]
  · rw [hArchive]
    exact hOffered.datedCount

section Calls

variable {search after : Search ρ τ} (hAscending : Goal.Ascending search.archive.goals)
  (hGoals : search.remaining.Nodup) (hOpen : search.remaining ≠ [])
include hAscending hGoals hOpen

/-- A call dates what it accepts with the generation that was current when it was made. -/
theorem Call.Passes.dates {call : Call τ} {before later : Search ρ τ}
    {candidates population : List (Chromosome τ)}
    (h : call.Passes problem search candidates before)
    (hPass : pass problem candidates before = .ok population later) :
    Dates search (call.date search) later := by
  obtain ⟨-, hArchive, hRemaining⟩ := h.aside
  obtain ⟨hHistory, hGeneration⟩ := h.generation_eq
  obtain ⟨stages, hLead⟩ := ensures_stages (hRemaining ▸ hOpen) rfl hPass
  have hDates := hLead.dates (hArchive ▸ hAscending) (hRemaining ▸ hGoals)
  rwa [Dates, hHistory, hArchive, hGeneration] at hDates

/-- What the start accepts is dated with generation zero. -/
theorem dates_of_start (first : start problem search = .ok () after) : Dates search 0 after := by
  obtain ⟨candidates, before, population, later, hPasses, hPass, rfl⟩ := ensures_start_passes rfl first
  obtain ⟨accepted, hAccepted, hDated⟩ := hPasses.dates hAscending hGoals hOpen hPass
  exact ⟨accepted, hAccepted, hDated⟩

/-- The count of generations goes up only after the witnesses of a step were dated. -/
theorem dates_of_step (last : step problem search = .ok () after) :
    Dates search search.generation after := by
  obtain ⟨candidates, before, population, later, hPasses, hPass, rfl⟩ := ensures_step_passes rfl last
  obtain ⟨accepted, hAccepted, hDated⟩ := hPasses.dates hAscending hGoals hOpen hPass
  exact ⟨accepted, hAccepted, hDated⟩

end Calls

/-- The witnesses of date zero are those of the first two entries, and those of a later date are
those of the entry behind it. -/
def Lags (archive : Archive τ) (accepted : List Nat) : Prop :=
  ∀ date, archive.datedCount date =
    (if date = 0 then accepted.getD 0 0 else 0) + accepted.getD (date + 1) 0

omit [HasCode τ] [RandomSource ρ] [Variation ρ τ] in
/-- A new archive has no witness of any date. -/
theorem datedCount_made (config : Config) (source : ρ) (goals : List Goal) (date : Nat) :
    (made config source goals : Search ρ τ).archive.datedCount date = 0 := by
  have hSize : (made config source goals : Search ρ τ).archive.size = 0 :=
    Archive.size_registerAll (Archive.ascending_goals_empty _) goals
  rw [Archive.size_eq_length, List.length_eq_zero_iff] at hSize
  rw [Archive.datedCount, hSize, List.countP_nil]

/-- Along any course, the dates lag behind the history by one generation from the first step on. -/
theorem Course.lags {config : Config} {source : ρ} {goals : List Goal} {signals : Nat → Signal}
    {initial search : Search ρ τ} {n : Nat} {reports : List SearchProgress}
    (hNew : Search.new config source goals = .ok initial)
    (h : Course problem signals initial n reports search) :
    Lags search.archive search.history.accepted := by
  induction h with
  | started first =>
      have hOpen := remaining_ne_nil_of_new hNew
      obtain rfl := eq_made_of_new hNew
      have hOnward := onward_made problem.executor config source goals
      obtain ⟨accepted, hAccepted, hDated⟩ :=
        dates_of_start hOnward.ascending hOnward.nodup hOpen first
      intro date
      rw [hDated, hAccepted, datedCount_made]
      cases date <;> simp [made]
  | @stepped n reports search next prior goesOn last ih =>
      have hStanding := prior.standing hNew
      have hOnward : Onward problem.executor initial (search.heed (signals n)) :=
        hStanding.onward.congr rfl rfl rfl
      obtain ⟨accepted, hAccepted, hDated⟩ := dates_of_step hOnward.ascending hOnward.nodup
        (stopReason_eq_none goesOn).2.1 last
      have hLength : search.history.accepted.length = n + 1 := hStanding.balanced.accepted
      have hNow : (search.heed (signals n)).generation = n := hStanding.generation
      intro date
      have hBefore : (search.heed (signals n)).archive.datedCount date = _ := ih date
      have hHistory : next.history.accepted = search.history.accepted ++ [accepted] := hAccepted
      have hFirst : next.history.accepted.getD 0 0 = search.history.accepted.getD 0 0 := by
        rw [hHistory, List.getD_append _ _ _ _ (by omega)]
      rw [hDated, hBefore, hNow, hFirst, Nat.add_assoc]
      congr 1
      rw [hHistory]
      rcases Nat.lt_trichotomy date n with hEarlier | rfl | hLater
      · rw [List.getD_append _ _ _ _ (by omega), if_neg (by omega), Nat.add_zero]
      · rw [List.getD_append_right _ _ _ _ (by omega), List.getD_eq_default _ _ (by omega),
          hLength]
        simp
      · rw [List.getD_eq_default _ _ (by omega), if_neg (by omega),
          List.getD_eq_default _ _ (by simp; omega)]

omit [HasCode τ] [RandomSource ρ] [Variation ρ τ] in
/-- The dates agree with the entries exactly if nothing was accepted after the start: what a later
entry counts is dated one too low. -/
theorem Lags.agrees_iff {archive : Archive τ} {accepted : List Nat} (h : Lags archive accepted) :
    (∀ i < accepted.length, accepted.getD i 0 = archive.datedCount i) ↔
      ∀ i, 0 < i → accepted.getD i 0 = 0 := by
  constructor
  · intro hAgrees i hi
    induction i, hi using Nat.le_induction with
    | base =>
        rcases Nat.eq_zero_or_pos accepted.length with hEmpty | hSome
        · exact List.getD_eq_default _ _ (by omega)
        · have hStart := hAgrees 0 hSome
          rw [h 0, if_pos rfl] at hStart
          exact Nat.left_eq_add.mp hStart
    | succ i hi ih =>
        rcases Nat.lt_or_ge i accepted.length with hIn | hOut
        · have hEntry := hAgrees i hIn
          rw [h i, if_neg (by omega), Nat.zero_add, ih] at hEntry
          exact hEntry.symm
        · exact List.getD_eq_default _ _ (by omega)
  · intro hNone i _
    rw [h i, hNone (i + 1) (Nat.succ_pos i), Nat.add_zero]
    split
    · rename_i hStart
      rw [hStart]
    · exact hNone i (by omega)

omit [HasCode τ] [RandomSource ρ] [Variation ρ τ] in
/-- No witness has a date beyond the entries. -/
theorem Lags.lt_length {archive : Archive τ} {accepted : List Nat} (h : Lags archive accepted)
    (hSome : accepted ≠ []) {witness : Witness τ} (hMem : witness ∈ archive.allWitnesses) :
    witness.generation < accepted.length := by
  by_contra hBeyond
  have hNone : archive.datedCount witness.generation = 0 := by
    have hLength := List.length_pos_iff.mpr hSome
    rw [h witness.generation, if_neg (by omega), List.getD_eq_default _ _ (by omega)]
  have hOne := List.countP_eq_zero.mp hNone witness hMem
  simp at hOne

/-- How the dates of the witnesses and the history of a run go together. The dates run one behind
the entries: those of date zero are what was accepted at the start and in the first step, and those
of a later date what was accepted one step on. So an entry is the number of witnesses with its date
only as long as nothing is accepted after the start. -/
theorem run_dates_witnesses (config : Config) (source : ρ) (goals : List Goal)
    {signals : Nat → Signal} {initial final : Search ρ τ} {result : SearchResult τ}
    {reports : List SearchProgress}
    (hNew : Search.new config source goals = .ok initial)
    (hRun : run problem signals initial = .ok (result, reports) final) :
    let accepted := result.history.accepted
    accepted.length = result.stats.generations + 1 ∧
    (final.archive.datedCount 0 = accepted.getD 0 0 + accepted.getD 1 0 ∧
      ∀ date, 0 < date → final.archive.datedCount date = accepted.getD (date + 1) 0) ∧
    (∀ witness ∈ final.archive.allWitnesses, witness.generation < accepted.length) ∧
    ((∀ i < accepted.length, accepted.getD i 0 = final.archive.datedCount i) ↔
      ∀ i, 0 < i → accepted.getD i 0 = 0) := by
  obtain ⟨n, search, reason, hCourse, -, rfl, rfl⟩ := exists_course_of_run hNew hRun
  have hStanding := hCourse.standing hNew
  have hLags : Lags search.archive search.history.accepted := hCourse.lags hNew
  have hLength : search.history.accepted.length = search.generation + 1 :=
    hStanding.balanced.accepted.trans (congrArg (· + 1) hStanding.generation.symm)
  have hSome : search.history.accepted ≠ [] := by
    rw [← List.length_pos_iff, hLength]
    exact Nat.succ_pos _
  have hLater : ∀ date, 0 < date →
      search.archive.datedCount date = search.history.accepted.getD (date + 1) 0 := by
    intro date hDate
    rw [hLags date, if_neg (Nat.ne_of_gt hDate), Nat.zero_add]
  exact ⟨hLength, ⟨hLags 0, hLater⟩, fun _ => hLags.lt_length hSome, hLags.agrees_iff⟩

/-- This run has accepted its only witness in the first step, and dated it zero. -/
theorem run_dates_witnesses_late :
    Search.new lateConfig (.start [1, 1, 0, 0, 0] 0) [trialGoal] = .ok late ∧
    ∃ result reports final,
      run trialProblem (fun _ => ⟨⟨0⟩, none⟩) late = .ok (result, reports) final ∧
      result.history.accepted = [0, 1] ∧ result.stats.generations = 1 ∧
      final.archive.datedCount 0 = 1 ∧ (∀ date, 0 < date → final.archive.datedCount date = 0) ∧
      ¬∀ i < result.history.accepted.length,
        result.history.accepted.getD i 0 = final.archive.datedCount i := by
  have hNew : Search.new lateConfig (.start [1, 1, 0, 0, 0] 0) [trialGoal] = .ok late := rfl
  obtain ⟨result, reports, final, hRun, hAccepted, hGenerations, -⟩ := exists_late_run
  obtain ⟨-, ⟨hFirst, hLater⟩, -, hAgrees⟩ :=
    run_dates_witnesses lateConfig (.start [1, 1, 0, 0, 0] 0) [trialGoal] hNew hRun
  rw [hAccepted] at hFirst hLater
  refine ⟨hNew, result, reports, final, hRun, hAccepted, hGenerations, hFirst, ?_, ?_⟩
  · intro date hDate
    rw [hLater date hDate]
    exact List.getD_eq_default _ _ (by simp; omega)
  · intro hSame
    have hNone := hAgrees.mp hSame 1 Nat.one_pos
    rw [hAccepted] at hNone
    cases hNone

/-- The dates do not agree with the history of this run. It has accepted its only witness in the
first step, and the witness is dated zero, like those of the start. -/
theorem exists_misdated :
    ∃ result reports final,
      Search.new lateConfig (.start [1, 1, 0, 0, 0] 0) [trialGoal] = .ok late ∧
      run trialProblem (fun _ => ⟨⟨0⟩, none⟩) late = .ok (result, reports) final ∧
      result.history.accepted = [0, 1] ∧
      final.archive.datedCount 0 = 1 ∧ final.archive.datedCount 1 = 0 := by
  obtain ⟨result, reports, final, hRun, hAccepted, -, -, hArchive⟩ := exists_late_run
  have hDated : lateArchive.datedCount 0 = 1 ∧ lateArchive.datedCount 1 = 0 := by
    decide +kernel
  exact ⟨result, reports, final, rfl, hRun, hAccepted, hArchive ▸ hDated⟩

end Search

end WitnessSearch
