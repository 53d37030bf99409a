import WitnessSearch.Proofs.Archive.Soundness
import WitnessSearch.Proofs.Search.Breeding
import WitnessSearch.Proofs.Search.Renewal

/-! A search that only ever deals with good candidates. The invariant says what the evaluator and
the archive have to do with each other: everything that is held was found by an evaluation which is
still on record. Building and breeding candidates keeps it, and goes wrong only where a draw or the
executor does. -/

namespace WitnessSearch.Search

open Draw

variable {ρ τ : Type} [HasCode τ]

/-- A search was stopped by one of the given faults. Until then it had handed over good candidates
only. -/
def Broken (faults : Fault → Prop) (good : τ → Prop) (fault : Fault) (search : Search ρ τ) : Prop :=
  search.evaluator.Broken faults good fault

/-- What holds at any moment of a search that deals with good candidates since it was in the state
`origin`. The known executions include those that the witnesses were observed in. -/
structure Steady (executor : Executor τ) (good : τ → Prop) (known : Memo)
    (origin search : Search ρ τ) : Prop extends Underway executor origin search where
  config : search.config = origin.config
  trusted : search.evaluator.Trusted executor good known
  sound : search.archive.Sound good known

structure Settled (executor : Executor τ) (good : τ → Prop) (known : Memo)
    (origin search : Search ρ τ) : Prop extends Steady executor good known origin search where
  current : search.remaining = search.archive.remainingGoals

section Invariants

variable {executor : Executor τ} {good : τ → Prop} {memo : Memo} {origin search : Search ρ τ}

theorem Settled.onward (h : Settled executor good memo origin search) :
    Onward executor origin search :=
  ⟨h.toUnderway, h.current⟩

/-- Only the evaluator, the archive, the goals and the configuration matter to a steady search. -/
theorem Steady.congr {later : Search ρ τ} (h : Steady executor good memo origin search)
    (hEvaluator : later.evaluator = search.evaluator) (hArchive : later.archive = search.archive)
    (hRemaining : later.remaining = search.remaining) (hConfig : later.config = search.config) :
    Steady executor good memo origin later where
  toUnderway := h.toUnderway.congr hEvaluator hArchive hRemaining
  config := hConfig.trans h.config
  trusted := hEvaluator ▸ h.trusted
  sound := hArchive ▸ h.sound

theorem Settled.congr {later : Search ρ τ} (h : Settled executor good memo origin search)
    (hEvaluator : later.evaluator = search.evaluator) (hArchive : later.archive = search.archive)
    (hRemaining : later.remaining = search.remaining) (hConfig : later.config = search.config) :
    Settled executor good memo origin later where
  toSteady := h.toSteady.congr hEvaluator hArchive hRemaining hConfig
  current := by rw [hArchive, hRemaining, h.current]

/-- What has been found since is on record, too. -/
theorem Steady.renew (h : Steady executor good memo origin search) :
    Steady executor good search.evaluator.memo origin search :=
  { h with
    trusted := ⟨h.trusted.attested, .refl _, h.trusted.logged⟩
    sound := h.sound.later h.trusted.within }

/-- A settled search may take its own memo as the one it goes on from. -/
theorem Settled.renew (h : Settled executor good memo origin search) :
    Settled executor good search.evaluator.memo origin search :=
  ⟨h.toSteady.renew, h.current⟩

/-- What an operation draws and evaluates leaves a search steady. -/
theorem insulated_steady :
    Insulated (Evaluator.Trusted executor good memo)
      (Steady executor good memo origin : Search ρ τ → Prop) where
  sound h := h.trusted
  replace source _ h hTrusted :=
    { h with toUnderway := h.toUnderway.replace source hTrusted.attested, trusted := hTrusted }

/-- What an operation draws and evaluates leaves a search settled. -/
theorem insulated_settled :
    Insulated (Evaluator.Trusted executor good memo)
      (Settled executor good memo origin : Search ρ τ → Prop) where
  sound h := h.trusted
  replace source evaluator h hTrusted :=
    ⟨insulated_steady.replace source evaluator h.toSteady hTrusted, h.current⟩

end Invariants

section Insulation

variable {executor : Executor τ} {faults : Fault → Prop} {good : τ → Prop} {memo : Memo}
  {invariant : Search ρ τ → Prop} {α : Type}
  (h : Insulated (Evaluator.Trusted executor good memo) invariant)
include h

/-- A draw of a search raises the faults of the draw, and keeps any insulated invariant. -/
theorem guards_drawing {draw : Draw ρ α} {property : α → Prop}
    (hDraw : Yields faults draw property) :
    Guards (Broken faults good) invariant (drawing draw) property := by
  refine Confines.of_state fun search hSearch => Confines.drawing ?_
  split
  · rename_i hRun
    exact ⟨(hDraw.answer trivial hRun).1, h.replace _ _ hSearch (h.sound hSearch)⟩
  · rename_i hRun
    exact ⟨hDraw.fault trivial hRun, (h.sound hSearch).logged⟩

/-- An evaluation of a search raises the faults of the evaluation, and keeps any insulated
invariant. What it says of its evaluator holds of that of the search. -/
theorem confines_evaluating {evaluation : Evaluation α} {property : α → Evaluator → Prop}
    (hEvaluation : Confines (Evaluator.Broken faults good) (Evaluator.Trusted executor good memo)
      evaluation fun answer evaluator =>
        property answer evaluator ∧ Evaluator.Trusted executor good memo evaluator) :
    Confines (Broken faults good) invariant (evaluating evaluation) fun answer search =>
      property answer search.evaluator ∧ invariant search := by
  refine Confines.of_state fun search hSearch => Confines.evaluating ?_
  split
  · rename_i hRun
    obtain ⟨hProperty, hTrusted⟩ := hEvaluation.answer (h.sound hSearch) hRun
    exact ⟨hProperty, h.replace _ _ hSearch hTrusted⟩
  · rename_i hRun
    exact hEvaluation.fault (h.sound hSearch) hRun

/-- An evaluation of a search keeps any insulated invariant and answers with what is known of the
evaluation, where nothing has to be said about the evaluator. -/
theorem guards_evaluating {evaluation : Evaluation α} {property : α → Prop}
    (hEvaluation : Guards (Evaluator.Broken faults good) (Evaluator.Trusted executor good memo)
      evaluation property) :
    Guards (Broken faults good) invariant (evaluating evaluation) property :=
  confines_evaluating h hEvaluation

end Insulation

/-- There is room for so many elements, or the lack of it is one of the faults. -/
def HasRoom (faults : Fault → Prop) (elementBytes count : Nat) : Prop :=
  elementBytes * count ≤ Checked.listBytes ∨ faults .capacityOverflow

section Fresh

variable [Variation ρ τ] {problem : Problem ρ τ} {faults : Fault → Prop} {good : τ → Prop}
  {arity : Goal → Nat}
  (h : problem.Sturdy faults good arity) {memo : Memo} {origin : Search ρ τ}
include h

/-- A biased candidate is good, and the search that drew it stays settled. -/
theorem guards_biasedCandidate (goal : Goal) :
    Guards (Broken faults good) (Settled problem.executor good memo origin)
      (biasedCandidate problem goal) (Chromosome.Wholly good) :=
  Guards.biasedCandidate (Guards.contestant (guards_drawing insulated_settled (h.biased goal))
    fun _ hGood => (guards_evaluating insulated_settled
      (Evaluator.trusted_evaluate h.execute hGood goal)).weaken fun _ _ => trivial)

/-- While goals are open, as many good candidates come as were asked for, or there is no room for
them. -/
theorem Settled.confines_freshCandidates {count : Nat} (hRoom : HasRoom faults candidateBytes count)
    {search : Search ρ τ} (hSearch : Settled problem.executor good memo origin search)
    (hOpen : search.remaining ≠ []) :
    Confines (Broken faults good) (· = search) (freshCandidates problem count) fun fresh later =>
      (candidateBytes * count ≤ Checked.listBytes ∧ fresh.length = count ∧
        ∀ chromosome ∈ fresh, chromosome.Wholly good) ∧
      Settled problem.executor good memo origin later :=
  Confines.freshCandidates hSearch (fun hNone => absurd hNone hOpen)
    (fun hFull => ⟨hRoom.resolve_left hFull, hSearch.trusted.logged⟩)
    (guards_drawing insulated_settled h.fresh) fun goal _ => guards_biasedCandidate h goal

end Fresh

section Breeding

variable [RandomSource ρ] [Variation ρ τ] {problem : Problem ρ τ} {faults : Fault → Prop}
  {good : τ → Prop} {arity : Goal → Nat}
  (h : problem.Sturdy faults good arity) {memo : Memo} {origin : Search ρ τ}
  (hConfig : origin.config.validate = .ok ())
include h hConfig

/-- The children of good parents are good, and the search stays settled. -/
theorem guards_reproduce {first second : Chromosome τ} (hFirst : first.Wholly good)
    (hSecond : second.Wholly good) :
    Guards (Broken faults good) (Settled problem.executor good memo origin)
      (reproduce first second) fun pair => pair.1.Wholly good ∧ pair.2.Wholly good := by
  refine Guards.get_bind fun search hSearch => ?_
  exact guards_drawing insulated_settled
    (h.operators.yields_children (hSearch.config ▸ hConfig) hFirst hSecond)

/-- A litter of good parents is good. Selection by rank needs the product of its weights to fit. -/
theorem guards_litter {parents : List (Chromosome τ)} {scores : Array Float}
    (hSome : 0 < parents.length) (hGood : ∀ parent ∈ parents, parent.Wholly good)
    (hWeights : origin.config.selection = .rankBased → HasWeights faults parents.length)
    (hScores : scores.size = parents.length)
    (hNumbers : ∀ score ∈ scores, score.isNaN = false) :
    Guards (Broken faults good) (Settled problem.executor good memo origin)
      (litter parents.toArray scores) fun children =>
        ∀ child ∈ children, child.Wholly good := by
  refine Guards.litter (fun search hSearch => guards_drawing insulated_settled ?_)
    (fun i search hPlace _ hBeyond => absurd hPlace (Nat.not_lt.mpr hBeyond))
    fun first hFirst second hSecond => ?_
  · rw [hSearch.config]
    rw [← hScores] at hSome hWeights ⊢
    exact yields_selectIndex h.endless hSome hNumbers _ hWeights
  · exact (guards_reproduce h hConfig (hGood _ hFirst) (hGood _ hSecond)).weaken fun _ hPair =>
      List.forall_mem_cons.mpr ⟨hPair.1, List.forall_mem_singleton.mpr hPair.2⟩

omit [Variation ρ τ] h hConfig [RandomSource ρ] in
/-- The fitness of a candidate on goals is a number on each of them. -/
theorem isMeasured_of_scores {executor : Executor τ}
    (hDistances : ∀ chromosome goal execution,
      executor.execute chromosome goal = .ok (.ok execution) →
        execution.fitness.isFinite = true ∧ ¬execution.fitness < 0.0)
    {chromosome : Chromosome τ} {goals : List Goal} {row : List Float}
    (hRow : List.Forall₂ (Evaluator.Scores executor chromosome) goals row) : IsMeasured row := by
  intro fitness hMem
  obtain ⟨goal, -, execution, hAttests, rfl⟩ := exists_left_of_related hRow hMem
  obtain ⟨hFinite, hNonneg⟩ := hAttests.of_answers
    (fun execution => execution.fitness.isFinite = true ∧ ¬execution.fitness < 0.0) (by decide)
    fun chromosome execution => hDistances chromosome goal execution
  exact FloatRounding.exists_value hFinite hNonneg

omit hConfig [RandomSource ρ] in
/-- The means of the candidates on the open goals are numbers. -/
theorem isNaN_of_scores {parents : List (Chromosome τ)} {search : Search ρ τ}
    (hGoals : origin.archive.goals.length < UInt64.size)
    (hSearch : Settled problem.executor good memo origin search) {matrix : List (List Float)}
    (hMatrix : List.Forall₂ (fun parent => List.Forall₂
      (Evaluator.Scores problem.executor parent) search.remaining) parents matrix) :
    ∀ score ∈ (matrix.map meanFitness).toArray, score.isNaN = false := by
  have hFew : search.remaining.length ≤ origin.archive.goals.length :=
    (hSearch.onward.nodup.subperm fun _ hMem => hSearch.onward.mem_goals hMem).length_le
  intro score hMem
  obtain ⟨row, hRow, rfl⟩ := List.mem_map.mp (List.mem_toArray.mp hMem)
  obtain ⟨parent, -, hScores⟩ := exists_left_of_related hMatrix hRow
  refine isNaN_meanFitness ?_ (isMeasured_of_scores (fun chromosome goal execution hAnswer =>
    (h.fits chromosome goal execution hAnswer).distance) hScores)
  rw [← hScores.length_eq]
  exact (Nat.lt_of_le_of_lt hFew hGoals).le

/-- No more offspring than parents. -/
theorem Settled.confines_breed {parents : List (Chromosome τ)} {search : Search ρ τ}
    (hGoals : origin.archive.goals.length < UInt64.size)
    (hGood : ∀ parent ∈ parents, parent.Wholly good)
    (hWeights : origin.config.selection = .rankBased → HasWeights faults parents.length)
    (hSearch : Settled problem.executor good memo origin search) :
    Confines (Broken faults good) (· = search) (breed problem parents) fun offspring later =>
      ((∀ child ∈ offspring, child.Wholly good) ∧ offspring.length ≤ parents.length) ∧
        Settled problem.executor good memo origin later := by
  have hLitter : ∀ matrix, parents ≠ [] → List.Forall₂ (fun parent => List.Forall₂
      (Evaluator.Scores problem.executor parent) search.remaining) parents matrix →
      Guards (Broken faults good) (Settled problem.executor good memo origin)
        (litter parents.toArray (matrix.map meanFitness).toArray) fun children =>
          ∀ child ∈ children, child.Wholly good := by
    intro matrix hSome hMatrix
    refine guards_litter h hConfig (List.length_pos_iff.mpr hSome) hGood hWeights ?_
      (isNaN_of_scores h hGoals hSearch hMatrix)
    simpa using hMatrix.length_eq.symm
  refine (Confines.breed (fun _ => hSearch) (fun _ => (guards_evaluating insulated_settled
    (Evaluator.trusted_fitnessMatrix h.execute hGood)).starting hSearch) hLitter).weaken ?_
  rintro _ later ⟨⟨litters, -, hLitters, rfl⟩, hLater⟩
  refine ⟨⟨fun child hMem => ?_, List.length_take_le _ _⟩, hLater⟩
  obtain ⟨litter, hLitter, hChild⟩ := List.mem_flatten.mp (List.mem_of_mem_take hMem)
  exact hLitters litter hLitter child hChild

end Breeding

end WitnessSearch.Search
