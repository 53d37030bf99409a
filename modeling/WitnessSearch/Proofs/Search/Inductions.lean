import WitnessSearch.Proofs.Search.Steady

/-! Offering candidates to the archive. The candidates that meet a goal have an order of diversity,
at least one of them is offered, and what comes back is good: a rejected candidate that was mutated,
or one that was never offered. -/

namespace WitnessSearch.Search

open Draw

variable {ρ τ : Type} [HasCode τ]

/-- A candidate that may be offered for a goal: it met the goal, it is good, and the execution it is
offered with is on record. -/
structure Offerable (executor : Executor τ) (good : τ → Prop) (memo : Memo) (origin : Search ρ τ)
    (goal : Goal) (candidate : Evaluated τ) : Prop where
  registered : goal ∈ origin.archive.goals
  meets : candidate.Meets executor goal
  good : candidate.chromosome.Wholly good
  recorded : memo.peek? candidate.chromosome.fingerprint goal = some candidate.execution

/-- A candidate on record that covers its goal can be offered, and the search stays steady. -/
theorem Steady.offer {executor : Executor τ} {good : τ → Prop} {memo : Memo}
    {origin search : Search ρ τ} (h : Steady executor good memo origin search) {goal : Goal}
    {candidate : Evaluated τ} (hCandidate : Offerable executor good memo origin goal candidate)
    (generation : Nat) :
    Steady executor good memo origin { search with
      archive := (search.archive.offer goal candidate.chromosome candidate.execution.observation
        generation).2 } where
  toUnderway := h.toUnderway.offer hCandidate.registered hCandidate.meets generation
  config := h.config
  trusted := h.trusted
  sound := h.sound.offer hCandidate.good hCandidate.recorded generation

variable [RandomSource ρ] [Variation ρ τ] {problem : Problem ρ τ} {faults : Fault → Prop}
  {good : τ → Prop} {arity : Goal → Nat} (h : problem.Sturdy faults good arity) {memo : Memo}
  {origin : Search ρ τ} {goal : Goal}
include h

/-- A rejected candidate leaves a good mutant. -/
theorem guards_offer {candidate : Evaluated τ}
    (hCandidate : Offerable problem.executor good memo origin goal candidate) :
    Guards (Broken faults good) (Steady problem.executor good memo origin) (offer goal candidate)
      fun answer => ∀ mutant ∈ answer, mutant.Wholly good := by
  refine Confines.of_state fun search hSearch => ?_
  have hOffer := hSearch.offer hCandidate search.generation
  refine Confines.offer (fun covered archive hAnswer => ?_) fun reason archive hAnswer => ?_
  · rw [hAnswer] at hOffer
    exact ⟨nofun, hOffer⟩
  · rw [hAnswer] at hOffer
    refine ((guards_drawing insulated_steady
      (h.operators.yields_mutate hCandidate.good)).starting hOffer).weaken ?_
    rintro mutant later ⟨hMutant, hLater⟩
    exact ⟨fun _ hSame => Option.some.inj hSame ▸ hMutant, hLater⟩

/-- Offers in order keep a search steady, and what they recycle is good. -/
theorem guards_offerInOrder {candidates : List (Evaluated τ)} (hSome : candidates ≠ [])
    (hCandidates : ∀ candidate ∈ candidates,
      Offerable problem.executor good memo origin goal candidate) :
    Guards (Broken faults good) (Steady problem.executor good memo origin)
      (offerInOrder goal candidates) fun induction =>
        ∀ chromosome ∈ induction.recycled, chromosome.Wholly good := by
  have hOffers : ∀ count, ∀ candidate ∈ candidates.take count, Guards (Broken faults good)
      (Steady problem.executor good memo origin) (offer goal candidate)
      fun answer => ∀ mutant ∈ answer, mutant.Wholly good :=
    fun _ candidate hMem => guards_offer h (hCandidates candidate (List.mem_of_mem_take hMem))
  refine Confines.of_state fun search hSearch => Confines.offerInOrder hSome
    ((Guards.mapM (hOffers _)).starting hSearch) ?_
  rintro answers later ⟨hAnswers, hLater⟩
  refine ⟨fun chromosome hMem => ?_, hLater⟩
  rcases List.mem_append.mp hMem with hMutant | hWithheld
  · obtain ⟨answer, hAnswer, hBack⟩ := List.mem_filterMap.mp hMutant
    obtain ⟨_, -, hGood⟩ := exists_left_of_related hAnswers hAnswer
    exact hGood chromosome hBack
  · obtain ⟨candidate, hCandidate, rfl⟩ := List.mem_map.mp hWithheld
    exact (hCandidates candidate (List.mem_of_mem_drop hCandidate)).good

/-- An induction keeps a search steady. The candidates that cover are offerable by assumption, and
the others are not offered at all. -/
theorem guards_induct {row : List (Evaluated τ)}
    (hBound : ∀ candidate ∈ row, candidate.goal = goal)
    (hCovering : ∀ candidate ∈ row, candidate.isCovered = true →
      Offerable problem.executor good memo origin goal candidate) :
    Guards (Broken faults good) (Steady problem.executor good memo origin)
      (induct problem goal row) fun induction =>
        ∀ chromosome ∈ induction.recycled, chromosome.Wholly good := by
  have hRefresh : Guards (Broken faults good) (Steady problem.executor good memo origin)
      (evaluating (Diversity.refresh problem.executor goal row)) fun covering =>
        ∀ candidate ∈ covering, Offerable problem.executor good memo origin goal candidate := by
    rw [Diversity.refresh_of_bound problem.executor hBound]
    refine guards_evaluating insulated_steady (Guards.pure fun candidate hMem => ?_)
    obtain ⟨hIn, hMeets⟩ := List.mem_filter.mp hMem
    exact hCovering candidate hIn hMeets
  refine Confines.of_state fun search hSearch => Confines.induct (hRefresh.starting hSearch)
    (fun later hMet => ⟨nofun, hMet.2⟩) (fun covering fault later hFault hMet => ?_)
    fun covering candidates hArranged hSome => Confines.of_fact fun hOfferable =>
      guards_offerInOrder h hSome fun candidate hMem =>
        hOfferable candidate (hArranged.perm.subset hMem)
  have hArity : ∀ candidate ∈ covering,
      (candidate.execution.observation.getD .empty).arity = arity goal := by
    intro candidate hMem
    have hMeets := (hMet.1 candidate hMem).meets
    rw [← hMeets.goal]
    exact (hMeets.faithful.attested.fits h.fits).arity hMeets.isCovered
  obtain ⟨order, hOrder⟩ :=
    Diversity.exists_rank (fun candidate hMem => (hMet.1 candidate hMem).meets.goal) hArity
  cases hOrder.symm.trans hFault

/-- The goals of a pass follow each other. Each induction leaves the search steady for the next one,
and what they recycle is good. -/
theorem guards_inductions {entries : List (Goal × List (Evaluated τ))}
    (hBound : ∀ entry ∈ entries, ∀ candidate ∈ entry.2, candidate.goal = entry.1)
    (hCovering : ∀ entry ∈ entries, ∀ candidate ∈ entry.2, candidate.isCovered = true →
      Offerable problem.executor good memo origin entry.1 candidate) :
    Guards (Broken faults good) (Steady problem.executor good memo origin)
      (entries.mapM fun entry => induct problem entry.1 entry.2) fun inductions =>
        ∀ chromosome ∈ inductions.flatMap (·.recycled), chromosome.Wholly good := by
  have hInduct : ∀ entry ∈ entries, Guards (Broken faults good)
      (Steady problem.executor good memo origin) (induct problem entry.1 entry.2)
      fun induction => ∀ chromosome ∈ induction.recycled, chromosome.Wholly good :=
    fun entry hMem => guards_induct h (hBound entry hMem) (hCovering entry hMem)
  refine (Guards.mapM hInduct).weaken fun inductions hAll chromosome hMem => ?_
  obtain ⟨induction, hInduction, hRecycled⟩ := List.mem_flatMap.mp hMem
  obtain ⟨_, -, hGood⟩ := exists_left_of_related hAll hInduction
  exact hGood chromosome hRecycled

end WitnessSearch.Search
