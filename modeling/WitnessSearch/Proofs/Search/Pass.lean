import WitnessSearch.Proofs.Archive.Tally
import WitnessSearch.Proofs.Checked
import WitnessSearch.Proofs.Search.Invariant

/-! What a generation does to the archive and the open goals. Inside a pass the archive runs ahead,
goal by goal; the pass brings the open goals up to date before it looks at them again. The way
through the offers is one for all that follows the number of those accepted. -/

namespace WitnessSearch.Search

variable {ρ τ : Type} [HasCode τ] {executor : Executor τ} {origin : Search ρ τ}

/-- A candidate that met a goal can be a genuine witness for it. -/
theorem genuine_offered {goal : Goal} {candidate : Evaluated τ}
    (h : candidate.Meets executor goal) (generation : Nat) :
    (Archive.offered candidate.chromosome candidate.execution.observation generation).Genuine
      executor goal where
  fingerprint := rfl
  execution := by
    obtain ⟨hFingerprint, hAttested⟩ := h.faithful
    rw [hFingerprint, h.goal] at hAttested
    exact ⟨candidate.execution, hAttested, h.isCovered, rfl⟩

/-- A pass may offer a candidate that met a registered goal at any time. -/
theorem Underway.offer {search : Search ρ τ} (h : Underway executor origin search) {goal : Goal}
    (hGoal : goal ∈ origin.archive.goals) {candidate : Evaluated τ}
    (hCandidate : candidate.Meets executor goal) (generation : Nat) :
    Underway executor origin { search with
      archive := (search.archive.offer goal candidate.chromosome candidate.execution.observation
        generation).2 } := by
  have hGrows := Archive.grows_offer candidate.chromosome candidate.execution.observation
    generation h.ascending (h.grows.goals ▸ hGoal)
  exact {
    memo := h.memo
    witnesses := h.witnesses.offer _ _ _ (genuine_offered hCandidate generation)
    ascending := by rw [hGrows.goals]; exact h.ascending
    pending := hGrows.filter_eq_remainingGoals h.ascending h.pending
    grows := h.grows.trans hGrows
    narrows := h.narrows }

/-- Dropping the covered goals brings the open goals up to date with the archive. -/
theorem Underway.updated {search : Search ρ τ} (h : Underway executor origin search) :
    Onward executor origin search.updated where
  memo := h.memo
  witnesses := h.witnesses
  ascending := h.ascending
  pending := ((Archive.Grows.refl search.archive).filter_open search.remaining).trans h.pending
  grows := h.grows
  narrows := List.Subset.trans (List.filter_subset_self _) h.narrows
  current := h.pending

/-- Stages that follow the number of accepted offers. The offer of a fit candidate leads from one of
them to another, and neither a draw nor a good evaluator leads away from one. -/
structure Tracks (good : Evaluator → Prop) (fit : Goal → Evaluated τ → Prop)
    (stage : Nat → Search ρ τ → Prop) : Prop where
  insulated : ∀ accepted, Insulated good (stage accepted)
  offers : ∀ {accepted search goal candidate}, stage accepted search → fit goal candidate →
    let answer := search.archive.offer goal candidate.chromosome candidate.execution.observation
      search.generation
    stage (accepted + answer.1.gain) { search with archive := answer.2 }

/-- While a pass is under way, candidates that met a registered goal may be offered. -/
theorem tracks_underway : Tracks (Evaluator.Attested executor)
    (fun goal candidate => goal ∈ origin.archive.goals ∧ candidate.Meets executor goal)
    (fun _ => Underway executor origin) where
  insulated _ := indifferent_underway.toInsulated
  offers h hFit := h.offer hFit.1 hFit.2 _

/-- A counter that goes up at each member with a property counts these members. -/
theorem foldl_add_countP {α : Type} (p : α → Bool) (xs : List α) (n : Nat) :
    xs.foldl (fun total x => total + if p x then 1 else 0) n = n + xs.countP p := by
  induction xs generalizing n with
  | nil => rfl
  | cons x xs ih =>
      rw [List.foldl_cons, ih, List.countP_cons]
      omega

variable [RandomSource ρ] [Variation ρ τ]

namespace Tracks

variable {good : Evaluator → Prop} {fit : Goal → Evaluated τ → Prop}
  {stage : Nat → Search ρ τ → Prop} (h : Tracks good fit stage) {accepted : Nat} {goal : Goal}
include h

/-- An accepted candidate does not come back. -/
theorem ensures_offer {candidate : Evaluated τ} (hFit : fit goal candidate) :
    Ensures (stage accepted) (offer goal candidate) fun answer =>
      stage (accepted + if answer.isNone then 1 else 0) := by
  refine Ensures.of_state fun search hSearch => ?_
  have hOffer := h.offers hSearch hFit
  refine Confines.offer (fun covered archive hAnswer => ?_) fun reason archive hAnswer => ?_
  · rw [hAnswer] at hOffer
    exact hOffer
  · rw [hAnswer] at hOffer
    exact (((h.insulated _).keeps_drawing _).confines.starting hOffer).weaken
      fun _ _ hStage => hStage.2

/-- The number of accepted offers goes on from what was accepted before, if every candidate fits its
goal. -/
theorem ensures_offerInOrder {candidates : List (Evaluated τ)} (hSome : candidates ≠ [])
    (hFit : ∀ candidate ∈ candidates, fit goal candidate) :
    Ensures (stage accepted) (offerInOrder goal candidates) fun induction =>
      stage (accepted + induction.accepted) := by
  have hOffers : ∀ count, Ensures (stage accepted) ((candidates.take count).mapM (offer goal))
      fun answers => stage (accepted + answers.countP Option.isNone) := by
    intro count
    have hOffer : ∀ candidate ∈ candidates.take count, ∀ total,
        Ensures (stage total) (offer goal candidate) fun answer search =>
          True ∧ stage (total + if answer.isNone then 1 else 0) search :=
      fun candidate hMem _ => (h.ensures_offer (hFit candidate (List.mem_of_mem_take hMem))).weaken
        fun _ _ hStage => ⟨trivial, hStage⟩
    refine (Ensures.mapM hOffer accepted).weaken fun answers search hStage => ?_
    rw [← foldl_add_countP]
    exact hStage.2
  exact Ensures.of_state fun search hSearch => Confines.offerInOrder hSome
    ((hOffers _).confines.starting hSearch) fun _ _ hStage => hStage

variable {problem : Problem ρ τ}

/-- Every candidate that is offered was refreshed, whatever the order of diversity is. -/
theorem ensures_induct {row : List (Evaluated τ)}
    (hRefresh : Keeps good (Diversity.refresh problem.executor goal row) fun covering =>
      ∀ candidate ∈ covering, fit goal candidate) :
    Ensures (stage accepted) (induct problem goal row) fun induction =>
      stage (accepted + induction.accepted) :=
  Ensures.of_state fun _ hSearch => Confines.induct
    (((h.insulated accepted).keeps_evaluating hRefresh).confines.starting hSearch)
    (fun _ hMet => hMet.2) (fun _ _ _ _ _ => trivial) fun _ _ hArranged hSome =>
      Confines.of_fact fun hCovering => (h.ensures_offerInOrder hSome fun candidate hMem =>
        hCovering candidate (hArranged.perm.subset hMem)).confines

/-- The goals of a pass follow each other, and their accepted offers add up. -/
theorem ensures_inductions (accepted : Nat) {entries : List (Goal × List (Evaluated τ))}
    (hRefresh : ∀ entry ∈ entries,
      Keeps good (Diversity.refresh problem.executor entry.1 entry.2) fun covering =>
        ∀ candidate ∈ covering, fit entry.1 candidate) :
    Ensures (stage accepted) (entries.mapM fun entry => induct problem entry.1 entry.2)
      fun inductions =>
        stage (inductions.foldl (fun total induction => total + induction.accepted) accepted) := by
  have hInduct : ∀ entry ∈ entries, ∀ total,
      Ensures (stage total) (induct problem entry.1 entry.2) fun induction search =>
        True ∧ stage (total + induction.accepted) search :=
    fun entry hMem _ => (h.ensures_induct (hRefresh entry hMem)).weaken
      fun _ _ hStage => ⟨trivial, hStage⟩
  exact (Ensures.mapM hInduct accepted).weaken fun _ _ hStage => hStage.2

end Tracks

section Passes

variable (problem : Problem ρ τ)

/-- A whole pass, whether or not there are open goals. -/
theorem Onward.confines_pass {search : Search ρ τ} (hSearch : Onward problem.executor origin search)
    (candidates : List (Chromosome τ)) :
    Confines (fun _ _ => True) (· = search) (pass problem candidates) fun _ =>
      Onward problem.executor origin := by
  have hInsulated : Insulated (Evaluator.Attested problem.executor)
      (Onward problem.executor origin) := indifferent_onward.toInsulated
  have hBatch := hInsulated.keeps_evaluating
    (Evaluator.keeps_evaluateBatch problem.executor candidates search.remaining)
  refine Confines.pass (fun _ => hSearch)
    (fun _ => hBatch.confines.starting hSearch) (fun rows => ?_)
    fun rows inductions => Confines.of_state fun later (hLater : Underway _ origin later) =>
      (indifferent_onward.confines_nextPopulation hLater.updated _ _ _ _ _).weaken ?_
  · refine Confines.of_fact fun hRows => ?_
    have hRefresh : ∀ entry ∈ search.remaining.zip rows,
        Keeps (Evaluator.Attested problem.executor)
          (Diversity.refresh problem.executor entry.1 entry.2) fun covering =>
            ∀ candidate ∈ covering, entry.1 ∈ origin.archive.goals ∧
              candidate.Meets problem.executor entry.1 := by
      intro entry hMem
      refine (Diversity.keeps_refresh problem.executor entry.1 entry.2 ?_).weaken
        fun covering hCovering candidate hIn =>
          ⟨hSearch.mem_goals (List.of_mem_zip hMem).1, hCovering candidate hIn⟩
      intro candidate hCandidate
      obtain ⟨chromosome, -, -, -, hFaithful⟩ :=
        exists_left_of_related (List.forall₂_zip hRows hMem) hCandidate
      exact hFaithful
    exact (tracks_underway.ensures_inductions 0 hRefresh).confines.strengthen
      fun _ h => h.toUnderway
  · rintro _ _ ⟨filled, hFilled, rfl⟩
    exact hFilled.congr rfl rfl rfl

/-- A start keeps a search onward: its memo and its witnesses stay genuine, and no goal is added to
those that remain. -/
theorem keeps_start : Keeps (Onward problem.executor origin) (start problem) fun _ => True := by
  refine Ensures.of_state fun search hSearch => Confines.start
    (fun _ => ⟨trivial, hSearch.congr rfl rfl rfl⟩)
    (fun _ => (indifferent_onward.keeps_freshCandidates _).confines.starting
      (hSearch.congr rfl rfl rfl)) fun candidates current hCurrent => ?_
  have hEvaluating : Onward problem.executor origin { current with phase := .evaluating } :=
    hCurrent.2.congr rfl rfl rfl
  exact (hEvaluating.confines_pass problem candidates).weaken
    fun _ _ hAfter => ⟨trivial, hAfter.congr rfl rfl rfl⟩

theorem keeps_step : Keeps (Onward problem.executor origin) (step problem) fun _ => True := by
  refine Ensures.of_state fun search hSearch => Confines.step
    ((indifferent_onward.keeps_breed search.population).confines.starting
      (hSearch.congr rfl rfl rfl)) fun offspring current hCurrent => ?_
  have hEvaluating : Onward problem.executor origin { current with phase := .evaluating } :=
    hCurrent.2.congr rfl rfl rfl
  exact (hEvaluating.confines_pass problem _).weaken
    fun _ _ hAfter => ⟨trivial, hAfter.congr rfl rfl rfl⟩

end Passes

end WitnessSearch.Search
