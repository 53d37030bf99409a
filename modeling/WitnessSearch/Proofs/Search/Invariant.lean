import WitnessSearch.Proofs.Archive.Growth
import WitnessSearch.Proofs.Search.Operations

/-! The invariants of a search. In the middle of a pass the archive may be ahead of the open goals
that the search keeps, and dropping the covered ones makes up for it. Between passes the two agree.
Draws and evaluations touch neither, so building and breeding candidates keep whatever does not
speak of the source and asks no more of the evaluator than evaluations keep. -/

namespace WitnessSearch.Search

variable {ρ τ : Type} [HasCode τ]

/-- What holds of a search at any moment since it was in the state `origin`. -/
structure Underway (executor : Executor τ) (origin search : Search ρ τ) : Prop where
  memo : search.evaluator.Attested executor
  witnesses : search.archive.Genuine executor
  ascending : Goal.Ascending search.archive.goals
  /-- Nothing but the covered goals has to be dropped. -/
  pending : (search.remaining.filter fun goal => !search.archive.isCovered goal) =
    search.archive.remainingGoals
  grows : origin.archive.Grows search.archive
  narrows : search.remaining ⊆ origin.remaining

structure Onward (executor : Executor τ) (origin search : Search ρ τ) : Prop
    extends Underway executor origin search where
  current : search.remaining = search.archive.remainingGoals

/-- An invariant that is not broken by drawing, nor by an evaluator that stays good. -/
structure Insulated (good : Evaluator → Prop) (invariant : Search ρ τ → Prop) : Prop where
  sound : ∀ {search}, invariant search → good search.evaluator
  replace : ∀ {search} (source : ρ) (evaluator : Evaluator), invariant search →
    good evaluator → invariant { search with source, evaluator }

/-- An insulated invariant under which the evaluator stays good when it is asked what a search asks
it for to get new candidates. -/
structure Indifferent (executor : Executor τ) (good : Evaluator → Prop)
    (invariant : Search ρ τ → Prop) : Prop extends Insulated good invariant where
  evaluate : ∀ chromosome goal,
    Keeps good (Evaluator.evaluate executor chromosome goal) fun _ => True
  matrix : ∀ {search}, invariant search → ∀ chromosomes,
    Keeps good (Evaluator.fitnessMatrix executor chromosomes search.remaining) fun _ => True

section Invariants

variable {executor : Executor τ} {origin search : Search ρ τ}

/-- Only the memo, the archive and the goals matter to a search underway. -/
theorem Underway.congr {later : Search ρ τ} (h : Underway executor origin search)
    (hEvaluator : later.evaluator = search.evaluator) (hArchive : later.archive = search.archive)
    (hRemaining : later.remaining = search.remaining) : Underway executor origin later where
  memo := hEvaluator ▸ h.memo
  witnesses := hArchive ▸ h.witnesses
  ascending := hArchive ▸ h.ascending
  pending := by rw [hArchive, hRemaining, h.pending]
  grows := hArchive ▸ h.grows
  narrows := hRemaining ▸ h.narrows

theorem Onward.congr {later : Search ρ τ} (h : Onward executor origin search)
    (hEvaluator : later.evaluator = search.evaluator) (hArchive : later.archive = search.archive)
    (hRemaining : later.remaining = search.remaining) : Onward executor origin later where
  toUnderway := h.toUnderway.congr hEvaluator hArchive hRemaining
  current := by rw [hArchive, hRemaining, h.current]

/-- Between passes the past can be forgotten. -/
theorem Onward.restart (h : Onward executor origin search) : Onward executor search search :=
  { h with grows := .refl _, narrows := List.Subset.refl _ }

/-- The open goals are among those the search was made for. -/
theorem Onward.mem_goals (h : Onward executor origin search) {goal : Goal}
    (hMem : goal ∈ search.remaining) : goal ∈ origin.archive.goals := by
  rw [h.current, Archive.remainingGoals_eq_filter h.ascending] at hMem
  rw [← h.grows.goals]
  exact List.mem_of_mem_filter hMem

/-- The remaining goals keep the order of the archive. -/
theorem Onward.ascending_remaining (h : Onward executor origin search) :
    Goal.Ascending search.remaining := by
  rw [h.current, Archive.remainingGoals_eq_filter h.ascending]
  exact List.Pairwise.filter _ h.ascending

theorem Onward.nodup (h : Onward executor origin search) : search.remaining.Nodup :=
  h.ascending_remaining.nodup

/-- A new source and an attested memo do not matter to a search underway. -/
theorem Underway.replace (h : Underway executor origin search) (source : ρ)
    {evaluator : Evaluator} (hMemo : evaluator.Attested executor) :
    Underway executor origin { search with source, evaluator } :=
  { h with memo := hMemo }

/-- What an operation draws and evaluates leaves a search underway. -/
theorem indifferent_underway :
    Indifferent executor (Evaluator.Attested executor) (Underway executor origin) where
  sound h := h.memo
  replace source _ h hMemo := h.replace source hMemo
  evaluate chromosome goal :=
    (Evaluator.keeps_evaluate executor chromosome goal).weaken fun _ _ => trivial
  matrix _ chromosomes :=
    (Evaluator.keeps_fitnessMatrix executor chromosomes _).weaken fun _ _ => trivial

/-- What an operation draws and evaluates leaves a search onward. -/
theorem indifferent_onward :
    Indifferent executor (Evaluator.Attested executor) (Onward executor origin) where
  sound h := h.memo
  replace source _ h hMemo := ⟨h.toUnderway.replace source hMemo, h.current⟩
  evaluate := (indifferent_underway : Indifferent executor _ (Underway executor origin)).evaluate
  matrix h := indifferent_underway.matrix h.toUnderway

end Invariants

section Draws

variable {good : Evaluator → Prop} {invariant : Search ρ τ → Prop} {α : Type}

omit [HasCode τ] in
/-- Drawing keeps every invariant that the source does not touch. -/
theorem Insulated.keeps_drawing (h : Insulated good invariant) (draw : Draw ρ α) :
    Keeps invariant (drawing draw) fun _ => True := by
  refine Ensures.of_state fun search hSearch => Confines.drawing ?_
  split
  · exact ⟨trivial, h.replace _ _ hSearch (h.sound hSearch)⟩
  · trivial

omit [HasCode τ] in
/-- Evaluating keeps every invariant that knows the evaluator only through a condition that it
keeps. -/
theorem Insulated.keeps_evaluating (h : Insulated good invariant) {evaluation : Evaluation α}
    {property : α → Prop} (hEvaluation : Keeps good evaluation property) :
    Keeps invariant (evaluating evaluation) property := by
  refine Ensures.of_state fun search hSearch => Confines.evaluating ?_
  split
  · rename_i hAnswer
    obtain ⟨hProperty, hGood⟩ := hEvaluation (h.sound hSearch) hAnswer
    exact ⟨hProperty, h.replace _ _ hSearch hGood⟩
  · trivial

omit [HasCode τ] in
theorem Insulated.keeps_reproduce [RandomSource ρ] [Variation ρ τ]
    (h : Insulated good invariant) (first second : Chromosome τ) :
    Keeps invariant (reproduce first second) fun _ => True :=
  Keeps.get_bind fun _ _ => h.keeps_drawing _

end Draws

namespace Indifferent

variable {good : Evaluator → Prop} {invariant : Search ρ τ → Prop} {problem : Problem ρ τ}
  (h : Indifferent problem.executor good invariant)
include h

theorem keeps_biasedCandidate (goal : Goal) :
    Keeps invariant (biasedCandidate problem goal) fun _ => True :=
  Confines.ensures (Guards.biasedCandidate (Guards.contestant
    (h.keeps_drawing (problem.factory.biased goal)).confines
    fun chromosome _ => (h.keeps_evaluating (h.evaluate chromosome goal)).confines))

theorem keeps_freshCandidates (count : Nat) :
    Keeps invariant (freshCandidates problem count) fun _ => True :=
  Ensures.of_state fun _ hSearch =>
    (Confines.freshCandidates hSearch (fun _ => trivial) (fun _ => trivial)
      (h.keeps_drawing _).confines fun goal _ => (h.keeps_biasedCandidate goal).confines).weaken
        fun _ _ hAfter => ⟨trivial, hAfter.2⟩

theorem keeps_topUp (size : Nat) (members : List (Chromosome τ)) :
    Keeps invariant (topUp problem size members) fun _ => True :=
  Ensures.of_state fun _ hSearch => Confines.topUp
    (fun _ _ => (h.keeps_freshCandidates _).confines.starting hSearch)
    fun _ => ⟨trivial, hSearch⟩

/-- Once the goals have been brought up to date, nothing but the record is written. -/
theorem confines_nextPopulation [RandomSource ρ] [Variation ρ τ] {search : Search ρ τ}
    (hUpdated : invariant search.updated) (config : Config) (goals : List Goal)
    (candidates : List (Chromosome τ)) (rows : List (List (Evaluated τ)))
    (inductions : List (Induction τ)) :
    Confines (fun _ _ => True) (· = search)
      (nextPopulation problem config goals candidates rows inductions) fun _ later =>
        ∃ filled, invariant filled ∧ later = filled.recorded (acceptedBy inductions) :=
  Confines.nextPopulation (fun _ _ => trivial) (fun _ _ _ _ => trivial) fun _ kept _ _ =>
    ((h.keeps_topUp _ kept).confines.starting hUpdated).weaken
      fun _ filled hFilled => ⟨filled, hFilled.2, rfl⟩

theorem keeps_breed [RandomSource ρ] [Variation ρ τ] (parents : List (Chromosome τ)) :
    Keeps invariant (breed problem parents) fun _ => True := by
  have hLitter : ∀ scores, Guards (fun _ _ => True) invariant
      (litter parents.toArray scores) fun _ => True :=
    fun scores => Guards.litter (fun _ _ => (h.keeps_drawing _).confines)
      (fun _ _ _ _ _ => trivial) fun first _ second _ =>
        (h.keeps_reproduce first second).confines
  refine Ensures.of_state fun search hSearch => ?_
  have hScores := (h.keeps_evaluating (h.matrix hSearch parents)).confines.starting hSearch
  exact (Confines.breed (fun _ => hSearch) (fun _ => hScores) fun _ _ _ => hLitter _).weaken
    fun _ _ hAfter => ⟨trivial, hAfter.2⟩

end Indifferent

end WitnessSearch.Search
