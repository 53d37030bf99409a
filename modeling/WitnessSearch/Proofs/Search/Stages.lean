import WitnessSearch.Proofs.Search.Dealings
import WitnessSearch.Proofs.Search.Reachable
import WitnessSearch.Proofs.Search.Survivors

/-! The stages of a pass with open goals. The candidates are evaluated and stay on record, those
that meet a goal are dealt with goal by goal, the others are ranked, and what the survivors leave of
the population is filled up. Fresh candidates are looked for beside all that: they touch nothing but
the source and the evaluator, and the evaluator only learns. -/

namespace WitnessSearch

variable {ρ τ : Type}

/-- The factory can come up with the candidate for the goals. -/
def Factory.Supplies (factory : Factory ρ τ) (goals : List Goal) (chromosome : Chromosome τ) :
    Prop :=
  (∃ source later, factory.fresh source = .ok chromosome later) ∨
    ∃ goal ∈ goals, ∃ source later, factory.biased goal source = .ok chromosome later

namespace Search

variable [HasCode τ]

section Beside

/-- But for the source and the evaluator nothing has changed, and what was on record still is. -/
structure Beside (before search : Search ρ τ) : Prop where
  aside : search = { before with source := search.source, evaluator := search.evaluator }
  memo : before.evaluator.memo.Within search.evaluator.memo

variable {before : Search ρ τ}

omit [HasCode τ] in
theorem Beside.refl (search : Search ρ τ) : Beside search search :=
  ⟨rfl, .refl _⟩

/-- What comes between the offers leaves a search beside the one before, with a memo that may have
grown. -/
theorem indifferent_beside (executor : Executor τ) :
    Indifferent executor (fun evaluator => before.evaluator.memo.Within evaluator.memo)
      (Beside before) where
  sound h := h.memo
  replace source evaluator h hMemo := ⟨by rw [h.aside], hMemo⟩
  evaluate chromosome goal :=
    Evaluator.Works.keeps_within fun _ => Evaluator.works_evaluate executor chromosome goal
  matrix _ chromosomes :=
    Evaluator.Works.keeps_within fun _ => Evaluator.works_fitnessMatrix executor chromosomes _

/-- Drawing fresh candidates changes the source and the memo, and nothing else. -/
theorem beside_of_freshCandidates {problem : Problem ρ τ} {count : Nat} {after : Search ρ τ}
    {fresh : List (Chromosome τ)} (h : freshCandidates problem count before = .ok fresh after) :
    Beside before after :=
  ((indifferent_beside problem.executor).keeps_freshCandidates _ (Beside.refl _) h).2

/-- Breeding changes the source and the memo, and nothing else. -/
theorem beside_of_breed [RandomSource ρ] [Variation ρ τ] {problem : Problem ρ τ}
    {parents offspring : List (Chromosome τ)} {after : Search ρ τ}
    (h : breed problem parents before = .ok offspring after) : Beside before after :=
  ((indifferent_beside problem.executor).keeps_breed _ (Beside.refl _) h).2

end Beside

section Fresh

variable {problem : Problem ρ τ}

/-- As many candidates as were asked for, all from the factory. -/
theorem supplies_of_freshCandidates {count : Nat} {before after : Search ρ τ}
    {fresh : List (Chromosome τ)} (h : freshCandidates problem count before = .ok fresh after) :
    fresh.length = count ∧
      ∀ chromosome ∈ fresh, problem.factory.Supplies before.remaining chromosome := by
  have hDrawing : ∀ draw : Draw ρ (Chromosome τ), Guards (fun _ _ => True)
      (fun _ : Search ρ τ => True) (drawing draw) fun chromosome =>
        ∃ source later, draw source = .ok chromosome later := by
    refine fun draw => Confines.of_state fun search _ => Confines.drawing ?_
    split
    · exact ⟨⟨_, _, ‹_›⟩, trivial⟩
    · trivial
  have hEvaluate : ∀ chromosome goal, Guards (fun _ _ => True) (fun _ : Search ρ τ => True)
      (evaluating (Evaluator.evaluate problem.executor chromosome goal)) fun _ => True :=
    fun _ _ => Ensures.confines fun _ _ _ _ _ => ⟨trivial, trivial⟩
  have hFresh : Guards (fun _ _ => True) (fun _ : Search ρ τ => True)
      (drawing problem.factory.fresh) (problem.factory.Supplies before.remaining) :=
    (hDrawing _).weaken fun _ hDrawn => .inl hDrawn
  have hBiased : ∀ goal ∈ before.remaining, Guards (fun _ _ => True) (fun _ => True)
      (biasedCandidate problem goal) (problem.factory.Supplies before.remaining) :=
    fun goal hGoal => (Guards.biasedCandidate (Guards.contestant (hDrawing _)
      fun chromosome _ => hEvaluate chromosome goal)).weaken
        fun _ hDrawn => .inr ⟨goal, hGoal, hDrawn⟩
  exact ((Confines.freshCandidates trivial (fun _ => trivial) (fun _ => trivial) hFresh
    hBiased).answer rfl h).1.2

end Fresh

variable [RandomSource ρ] [Variation ρ τ] {problem : Problem ρ τ}

omit [RandomSource ρ] [Variation ρ τ] in
/-- The candidates kept, and fresh ones if the population is short of members and goals are open. -/
theorem ensures_topUp {size : Nat} {kept : List (Chromosome τ)} {before : Search ρ τ}
    (hKept : kept.length ≤ size) :
    Ensures (· = before) (topUp problem size kept) fun next after =>
      Beside before after ∧ next.length ≤ size ∧
        (before.remaining ≠ [] → next.length = size) ∧
        ∃ fresh, next = kept ++ fresh ∧
          (∀ chromosome ∈ fresh, problem.factory.Supplies before.remaining chromosome) ∧
          (fresh = [] ∨ freshCandidates problem fresh.length before = .ok fresh after) ∧
          (before.remaining = [] → fresh = []) := by
  refine Ensures.of_state ?_
  rintro before rfl
  refine Confines.topUp (fun hShort hOpen => ?_) fun hFull => ?_
  · refine (Ensures.self _).confines.weaken ?_
    rintro fresh later ⟨_, rfl, hFresh⟩
    obtain ⟨hLength, hSupplied⟩ := supplies_of_freshCandidates hFresh
    have hAll : (kept ++ fresh).length = size := by
      rw [List.length_append, hLength]
      omega
    exact ⟨beside_of_freshCandidates hFresh, hAll.le, fun _ => hAll, fresh, rfl, hSupplied,
      .inr (hLength.symm ▸ hFresh), fun hClosed => absurd hClosed hOpen⟩
  · have hSize : before.remaining ≠ [] → kept.length = size := fun hOpen =>
      hKept.antisymm (Nat.not_lt.mp fun hShort => hOpen (hFull hShort))
    exact ⟨Beside.refl _, hKept, hSize, [], (List.append_nil _).symm, nofun, .inl rfl,
      fun _ => rfl⟩

/-- Without open goals a pass only cuts its candidates. -/
theorem ensures_pass_closed {candidates : List (Chromosome τ)} {before : Search ρ τ}
    (hClosed : before.remaining = []) :
    Ensures (· = before) (pass problem candidates) fun next after =>
      next = candidates.take before.config.population.size ∧ after = before :=
  (Confines.pass (fun _ => ⟨rfl, rfl⟩) (fun hOpen => absurd hClosed hOpen)
    (fun _ _ => False.elim) (fun _ _ _ => False.elim) :
      Confines (fun _ _ => True) _ (pass problem candidates) _).ensures

/-- What the stages of a pass come to. -/
structure Stages (ρ τ : Type) where
  rows : List (List (Evaluated τ))
  evaluator : Evaluator
  inductions : List (Induction τ)
  /-- The search after the last offer. -/
  offered : Search ρ τ
  ranking : Ranking
  /-- The survivors. -/
  kept : List (Chromosome τ)
  /-- The search after the population was filled up. -/
  topped : Search ρ τ

namespace Stages

def remaining (stages : Stages ρ τ) : List Goal :=
  stages.offered.remaining.filter fun goal => !stages.offered.archive.isCovered goal

def recycled (stages : Stages ρ τ) : List (Chromosome τ) :=
  stages.inductions.flatMap (·.recycled)

def pool (stages : Stages ρ τ) (goals : List Goal) (candidates : List (Chromosome τ)) :
    List (Contender τ) :=
  ranked goals stages.remaining candidates stages.rows

/-- The pass went through the stages. -/
structure Lead (problem : Problem ρ τ) (candidates : List (Chromosome τ)) (before : Search ρ τ)
    (stages : Stages ρ τ) (next : List (Chromosome τ)) (after : Search ρ τ) : Prop where
  evaluated : Evaluator.evaluateBatch problem.executor candidates before.remaining
    before.evaluator = .ok stages.rows stages.evaluator
  offers : (before.remaining.zip stages.rows).mapM (fun entry => induct problem entry.1 entry.2)
    { before with evaluator := stages.evaluator } = .ok stages.inductions stages.offered
  ranked : rankContenders before.config.ranking stages.offered.archive
    (stages.pool before.remaining candidates) = .ok stages.ranking
  survived : survivors before.config.population.size stages.recycled
    (stages.pool before.remaining candidates) stages.ranking = .ok stages.kept
  filled : topUp problem before.config.population.size stages.kept
    { stages.offered with remaining := stages.remaining } = .ok next stages.topped
  recorded : recordPass (acceptedBy stages.inductions) stages.topped = .ok () after

end Stages

/-- A pass with open goals goes through its stages. -/
theorem ensures_stages {candidates : List (Chromosome τ)} {before : Search ρ τ}
    (hOpen : before.remaining ≠ []) :
    Ensures (· = before) (pass problem candidates) fun next after =>
      ∃ stages : Stages ρ τ, stages.Lead problem candidates before next after := by
  let judged (rows : List (List (Evaluated τ))) (search : Search ρ τ) : Prop :=
    ∃ evaluator, Evaluator.evaluateBatch problem.executor candidates before.remaining
      before.evaluator = .ok rows evaluator ∧ search = { before with evaluator }
  let dealt (rows : List (List (Evaluated τ))) (inductions : List (Induction τ))
      (search : Search ρ τ) : Prop :=
    ∃ state, judged rows state ∧ (before.remaining.zip rows).mapM
      (fun entry => induct problem entry.1 entry.2) state = .ok inductions search
  have hBatch : Confines (fun _ _ => True) (· = before) (evaluating
      (Evaluator.evaluateBatch problem.executor candidates before.remaining)) judged := by
    refine Confines.evaluating ?_
    split
    · exact ⟨_, ‹_›, rfl⟩
    · trivial
  refine Confines.ensures (Confines.pass (fun hNone => absurd hNone hOpen) (fun _ => hBatch)
    (fun rows => (Ensures.self _).confines) fun rows inductions => ?_)
  refine Confines.of_state fun offered (hOffered : dealt rows inductions offered) => ?_
  obtain ⟨_, ⟨evaluator, hJudged, rfl⟩, hInductions⟩ := hOffered
  refine Confines.nextPopulation (fun _ _ => trivial) (fun _ _ _ _ => trivial)
    fun ranking kept hRanked hKept => (Ensures.self _).confines.weaken ?_
  rintro next topped ⟨_, rfl, hTopUp⟩
  exact ⟨⟨rows, evaluator, inductions, offered, ranking, kept, topped⟩,
    ⟨hJudged, hInductions, hRanked, hKept, hTopUp, rfl⟩⟩

/-- A pass determines its stages, since every stage is an answer of a function of those before it.
-/
theorem Stages.Lead.unique {candidates next others : List (Chromosome τ)}
    {before after later : Search ρ τ} {stages alike : Stages ρ τ}
    (h : stages.Lead problem candidates before next after)
    (hAlike : alike.Lead problem candidates before others later) : stages = alike := by
  obtain ⟨rows, evaluator, inductions, offered, ranking, kept, topped⟩ := stages
  obtain ⟨hEvaluated, hOffers, hRanked, hSurvived, hFilled, -⟩ := h
  cases hEvaluated.symm.trans hAlike.evaluated
  cases hOffers.symm.trans hAlike.offers
  cases hRanked.symm.trans hAlike.ranked
  cases hSurvived.symm.trans hAlike.survived
  cases hFilled.symm.trans hAlike.filled
  rfl

/-- Stages that lead somewhere make a pass. Concrete passes are shown by their stages, so no pass
has to be evaluated as a whole. -/
theorem pass_of_lead {candidates next : List (Chromosome τ)} {before after : Search ρ τ}
    {stages : Stages ρ τ} (h : stages.Lead problem candidates before next after)
    (hOpen : before.remaining ≠ []) : pass problem candidates before = .ok next after := by
  let judged (rows : List (List (Evaluated τ))) (search : Search ρ τ) : Prop :=
    rows = stages.rows ∧ search = { before with evaluator := stages.evaluator }
  let dealt (rows : List (List (Evaluated τ))) (inductions : List (Induction τ))
      (search : Search ρ τ) : Prop :=
    rows = stages.rows ∧ inductions = stages.inductions ∧ search = stages.offered
  have hBatch : Confines (fun _ _ => False) (· = before) (evaluating
      (Evaluator.evaluateBatch problem.executor candidates before.remaining)) judged :=
    Confines.of_ok (evaluating_of_ok h.evaluated) ⟨rfl, rfl⟩
  have hInductions : ∀ rows, Confines (fun _ _ => False) (judged rows)
      ((before.remaining.zip rows).mapM fun entry => induct problem entry.1 entry.2)
      (dealt rows) := by
    rintro rows _ ⟨rfl, rfl⟩
    exact Confines.of_ok h.offers ⟨rfl, rfl, rfl⟩ rfl
  have hNext : ∀ rows inductions, Confines (fun _ _ => False) (dealt rows inductions)
      (nextPopulation problem before.config before.remaining candidates rows inductions)
      fun answer final => answer = next ∧ final = after := by
    rintro rows inductions _ ⟨rfl, rfl, rfl⟩
    refine Confines.nextPopulation (fun fault hFault => ?_) (fun ranking fault hRanked hFault => ?_)
      (fun ranking kept hRanked hKept => ?_) rfl
    · cases h.ranked.symm.trans hFault
    · cases h.ranked.symm.trans hRanked
      cases h.survived.symm.trans hFault
    · cases h.ranked.symm.trans hRanked
      cases h.survived.symm.trans hKept
      cases h.recorded
      exact Confines.of_ok h.filled ⟨rfl, rfl⟩
  obtain ⟨_, _, hPass, rfl, rfl⟩ := (Confines.pass (fun hNone => absurd hNone hOpen)
    (fun _ => hBatch) hInductions hNext).exists_answer before rfl
  exact hPass

namespace Stages.Lead

variable {candidates next : List (Chromosome τ)} {before after : Search ρ τ} {stages : Stages ρ τ}

/-- Every candidate is on record once the batch was evaluated, and what was on record still is. -/
theorem judged (h : stages.Lead problem candidates before next after)
    (hGoals : before.remaining.Nodup) :
    List.Forall₂ (stages.evaluator.RecordsRow candidates) before.remaining stages.rows ∧
      before.evaluator.memo.Within stages.evaluator.memo := by
  have hWorks := (Evaluator.works_evaluateBatch problem.executor candidates before.remaining).answer
    (Evaluator.Busy.refl before.evaluator) h.evaluated
  exact ⟨Evaluator.ensures_evaluateBatch_records problem.executor candidates hGoals trivial
    h.evaluated, hWorks.2.reaches.within⟩

/-- Every candidate of a row is bound to the goal of this row. -/
theorem bound (h : stages.Lead problem candidates before next after)
    (hGoals : before.remaining.Nodup) :
    ∀ entry ∈ before.remaining.zip stages.rows, ∀ candidate ∈ entry.2,
      candidate.goal = entry.1 := by
  intro entry hEntry candidate hMem
  obtain ⟨_, -, -, hGoal, -⟩ :=
    exists_left_of_related (List.forall₂_zip (h.judged hGoals).1 hEntry) hMem
  exact hGoal

/-- What was done with the candidates that meet a goal, goal by goal. -/
theorem exists_dealings (h : stages.Lead problem candidates before next after)
    (hGoals : before.remaining.Nodup) :
    ∃ dealings : List (Dealing τ), dealings.map Dealing.induction = stages.inductions ∧
      dealings.map (·.goal) = before.remaining ∧
      List.Forall₂ (fun entry dealing => dealing.Handles ρ before.config.archiveFraction
        before.generation entry.1 entry.2) (before.remaining.zip stages.rows) dealings ∧
      Offering { before with evaluator := stages.evaluator } (dealings.flatMap Dealing.log)
        stages.offered := by
  obtain ⟨dealings, hInductions, hHandles, hOffering⟩ :=
    ensures_inductions_offering (h.bound hGoals) (Offering.refl _) h.offers
  refine ⟨dealings, hInductions, ?_, hHandles, hOffering⟩
  rw [map_eq_map_of_related (f := Prod.fst) (hHandles.imp fun _ _ h => h.goal_eq)]
  exact List.map_fst_zip (h.judged hGoals).1.length_eq.le

/-- The offers leave everything but the source and the archive alone. -/
theorem offered_eq (h : stages.Lead problem candidates before next after)
    (hGoals : before.remaining.Nodup) :
    stages.offered = { before with
      source := stages.offered.source
      evaluator := stages.evaluator
      archive := stages.offered.archive } := by
  obtain ⟨_, -, -, -, hOffering⟩ := h.exists_dealings hGoals
  exact hOffering.aside

/-- The population is filled up with what was drawn for the goals that are still open. -/
theorem exists_fresh (h : stages.Lead problem candidates before next after) :
    Beside { stages.offered with remaining := stages.remaining } stages.topped ∧
      next.length ≤ before.config.population.size ∧
      (stages.remaining ≠ [] → next.length = before.config.population.size) ∧
      ∃ fresh, next = stages.kept ++ fresh ∧
        (∀ chromosome ∈ fresh, problem.factory.Supplies stages.remaining chromosome) ∧
        (fresh = [] ∨ freshCandidates problem fresh.length
          { stages.offered with remaining := stages.remaining } = .ok fresh stages.topped) ∧
        (stages.remaining = [] → fresh = []) :=
  ensures_topUp (survivors_eq_ok h.survived).2.1 rfl h.filled

/-- What the pass leaves behind, but for the source and the evaluator. -/
theorem after_eq (h : stages.Lead problem candidates before next after)
    (hGoals : before.remaining.Nodup) :
    after = { before with
      source := stages.topped.source
      evaluator := stages.topped.evaluator
      archive := stages.offered.archive
      remaining := stages.remaining
      history := after.history } := by
  obtain ⟨hBeside, -⟩ := h.exists_fresh
  cases h.recorded
  rw [hBeside.aside, h.offered_eq hGoals]

/-- Every candidate is on record when the pass is over. -/
theorem records (h : stages.Lead problem candidates before next after)
    (hGoals : before.remaining.Nodup) :
    List.Forall₂ (after.evaluator.RecordsRow candidates) before.remaining stages.rows := by
  obtain ⟨hBeside, -⟩ := h.exists_fresh
  have hWithin : stages.evaluator.memo.Within after.evaluator.memo := by
    have hMemo := hBeside.memo
    rw [h.offered_eq hGoals] at hMemo
    rw [h.after_eq hGoals]
    exact hMemo
  exact (h.judged hGoals).1.imp fun _ _ hRow => hRow.later hWithin

end Stages.Lead

/-- The call makes a pass over the candidates, which begins in the given state. -/
def Call.Passes (problem : Problem ρ τ) (search : Search ρ τ) (candidates : List (Chromosome τ))
    (before : Search ρ τ) : Call τ → Prop
  | .start => ∃ current,
      (search.remaining = [] ∧ candidates = [] ∧ current = { search with generation := 0 } ∨
        search.remaining ≠ [] ∧ freshCandidates problem search.config.population.size
          { search with generation := 0 } = .ok candidates current) ∧
      before = { current with phase := .evaluating }
  | .step => ∃ offspring current,
      breed problem search.population { search with phase := .evolving, population := [] } =
        .ok offspring current ∧
      candidates = search.population ++ offspring ∧
      before = { current with phase := .evaluating }
  | .reproduce _ _ => False

/-- A start gets its first candidates from the factory, if there are goals to get them for. -/
theorem ensures_start_passes {search : Search ρ τ} :
    Ensures (· = search) (start problem) fun _ after => ∃ candidates before population later,
      Call.start.Passes problem search candidates before ∧
      pass problem candidates before = .ok population later ∧
      after = { later with population } := by
  let initial (candidates : List (Chromosome τ)) (current : Search ρ τ) : Prop :=
    search.remaining = [] ∧ candidates = [] ∧ current = { search with generation := 0 } ∨
      search.remaining ≠ [] ∧ freshCandidates problem search.config.population.size
        { search with generation := 0 } = .ok candidates current
  have hFresh : search.remaining ≠ [] → Confines (fun _ _ => True)
      (· = { search with generation := 0 })
      (freshCandidates problem search.config.population.size) initial := by
    refine fun hOpen => (Ensures.self _).confines.weaken ?_
    rintro fresh current ⟨_, rfl, hFresh⟩
    exact .inr ⟨hOpen, hFresh⟩
  refine Confines.ensures (Confines.start (fun hClosed => .inl ⟨hClosed, rfl, rfl⟩) hFresh
    fun candidates current hFirst => (Ensures.self _).confines.weaken ?_)
  rintro population later ⟨_, rfl, hPass⟩
  exact ⟨candidates, _, population, later, ⟨current, hFirst, rfl⟩, hPass, rfl⟩

/-- A step breeds from the population and puts the parents first. -/
theorem ensures_step_passes {search : Search ρ τ} :
    Ensures (· = search) (step problem) fun _ after => ∃ candidates before population later,
      Call.step.Passes problem search candidates before ∧
      pass problem candidates before = .ok population later ∧
      after = { later with population, generation := later.generation + 1 } := by
  refine Confines.ensures (Confines.step (Ensures.self _).confines
    fun offspring current hBred => (Ensures.self _).confines.weaken ?_)
  obtain ⟨_, rfl, hBreed⟩ := hBred
  rintro population later ⟨_, rfl, hPass⟩
  exact ⟨_, _, population, later, ⟨offspring, current, hBreed, rfl, rfl⟩, hPass, rfl⟩

/-- What comes before the pass of a call changes neither the configuration nor the archive nor the
open goals. -/
theorem Call.Passes.aside {call : Call τ} {search before : Search ρ τ}
    {candidates : List (Chromosome τ)} (h : call.Passes problem search candidates before) :
    before.config = search.config ∧ before.archive = search.archive ∧
      before.remaining = search.remaining := by
  cases call with
  | start =>
      obtain ⟨current, hFirst, rfl⟩ := h
      rcases hFirst with ⟨-, -, rfl⟩ | ⟨-, hFresh⟩
      · exact ⟨rfl, rfl, rfl⟩
      · have hAside := (beside_of_freshCandidates hFresh).aside
        rw [hAside]
        exact ⟨rfl, rfl, rfl⟩
  | step =>
      obtain ⟨offspring, current, hBreed, -, rfl⟩ := h
      have hAside := (beside_of_breed hBreed).aside
      rw [hAside]
      exact ⟨rfl, rfl, rfl⟩
  | reproduce first second => exact h.elim

/-- The date of the witnesses that a call adds: zero for a start, and for a step the generation that
the search was in before it. -/
def Call.date (search : Search ρ τ) : Call τ → Nat
  | .start => 0
  | .step => search.generation
  | .reproduce _ _ => search.generation

/-- Up to the pass of a call, the history is as before and the generation is the date of the call.
-/
theorem Call.Passes.generation_eq {call : Call τ} {search before : Search ρ τ}
    {candidates : List (Chromosome τ)} (h : call.Passes problem search candidates before) :
    before.history = search.history ∧ before.generation = call.date search := by
  cases call with
  | start =>
      obtain ⟨current, hFirst, rfl⟩ := h
      rcases hFirst with ⟨-, -, rfl⟩ | ⟨-, hFresh⟩
      · exact ⟨rfl, rfl⟩
      · have hAside := (beside_of_freshCandidates hFresh).aside
        rw [hAside]
        exact ⟨rfl, rfl⟩
  | step =>
      obtain ⟨offspring, current, hBreed, -, rfl⟩ := h
      have hAside := (beside_of_breed hBreed).aside
      rw [hAside]
      exact ⟨rfl, rfl⟩
  | reproduce first second => exact h.elim

/-- A pass leaves the count of generations to the call that makes it. -/
theorem generation_of_pass {candidates next : List (Chromosome τ)} {before after : Search ρ τ}
    (hGoals : before.remaining.Nodup) (h : pass problem candidates before = .ok next after) :
    after.generation = before.generation := by
  by_cases hOpen : before.remaining = []
  · rw [(ensures_pass_closed hOpen rfl h).2]
  · obtain ⟨stages, hLead⟩ := ensures_stages hOpen rfl h
    rw [hLead.after_eq hGoals]

/-- A search that was started is in generation zero. -/
theorem generation_of_start {search after : Search ρ τ} (hGoals : search.remaining.Nodup)
    (h : start problem search = .ok () after) : after.generation = 0 := by
  obtain ⟨candidates, before, population, later, hPasses, hPass, rfl⟩ :=
    ensures_start_passes rfl h
  exact (generation_of_pass (hPasses.aside.2.2 ▸ hGoals) hPass).trans hPasses.generation_eq.2

theorem generation_of_step {search after : Search ρ τ} (hGoals : search.remaining.Nodup)
    (h : step problem search = .ok () after) : after.generation = search.generation + 1 := by
  obtain ⟨candidates, before, population, later, hPasses, hPass, rfl⟩ := ensures_step_passes rfl h
  exact congrArg (· + 1)
    ((generation_of_pass (hPasses.aside.2.2 ▸ hGoals) hPass).trans hPasses.generation_eq.2)

/-- The pass that the start of the trial makes. -/
theorem exists_trial_pass :
    ∃ (candidates : List (Chromosome InputVector)) (before : Search Replay InputVector)
      (next : List (Chromosome InputVector)) (after : Search Replay InputVector),
      Call.start.Passes trialProblem trial candidates before ∧ before.remaining ≠ [] ∧
      pass trialProblem candidates before = .ok next after ∧
      after.archive.witnesses trialGoal = [Archive.offered (trialCall "f") none 0] := by
  obtain ⟨later, hStart, hHeld⟩ := trial_start
  obtain ⟨candidates, before, next, after, hPasses, hPass, rfl⟩ := ensures_start_passes rfl hStart
  have hOpen : before.remaining ≠ [] := by
    rw [hPasses.aside.2.2]
    exact remaining_ne_nil_of_new (rfl : Search.new trialConfig _ [trialGoal] = .ok trial)
  exact ⟨candidates, before, next, after, hPasses, hOpen, hPass, hHeld⟩

end Search

end WitnessSearch
