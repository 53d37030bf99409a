import WitnessSearch.Proofs.Search.Endurance

/-! Everything a search can be asked for. A search may be started, stepped, asked for offspring and
run on any signals, in any order and as often as one likes, also when nothing is left to do. From a
secure state each of these leads to a secure state or ends in a fault of the surroundings. -/

namespace WitnessSearch.Search

open Draw

variable {ρ τ : Type} [HasCode τ]

section Secure

variable {executor : Executor τ} {good : τ → Prop} {known : Memo} {origin search : Search ρ τ}

theorem Secure.congr {later : Search ρ τ} (h : Secure executor good origin search)
    (hEvaluator : later.evaluator = search.evaluator) (hArchive : later.archive = search.archive)
    (hRemaining : later.remaining = search.remaining) (hConfig : later.config = search.config)
    (hPopulation : later.population = search.population) :
    Secure executor good origin later where
  settled := by
    obtain ⟨known, hSettled⟩ := h.settled
    exact ⟨known, hSettled.congr hEvaluator hArchive hRemaining hConfig⟩
  population := hPopulation ▸ h.population

/-- A search that was just made holds nothing that could be bad. -/
theorem secure_made (executor : Executor τ) (good : τ → Prop) (config : Config) (source : ρ)
    (goals : List Goal) :
    Secure executor good (made config source goals) (made config source goals) where
  settled := ⟨.empty, {
    toUnderway := (onward_made executor config source goals).toUnderway
    config := rfl
    trusted := ⟨Memo.attested_empty executor, .refl _, nofun⟩
    sound := Archive.sound_of_no_witnesses (witnesses_made config source goals)
    current := rfl }⟩
  population := populated_nil good _

/-- The part of security that speaks of a fixed memo. -/
theorem insulated_populated : Insulated (Evaluator.Trusted executor good known)
    (fun search : Search ρ τ => Settled executor good known origin search ∧
      Populated good origin.config.population.size search.population) where
  sound h := h.1.trusted
  replace source evaluator h hTrusted :=
    ⟨insulated_settled.replace source evaluator h.1 hTrusted, h.2⟩

end Secure

variable [RandomSource ρ] [Variation ρ τ] {problem : Problem ρ τ} {faults : Fault → Prop}
  {good : τ → Prop} {arity : Goal → Nat} (h : problem.Sturdy faults good arity)
  {origin : Search ρ τ} (hOrigin : Affordable problem.executor faults good origin)
include h hOrigin

/-- The start keeps a search secure, or it breaks off with one of the expected faults. -/
theorem confines_start :
    Confines (Broken faults good) (Secure problem.executor good origin) (start problem)
      fun _ => Secure problem.executor good origin := by
  refine Confines.of_state fun search hSecure => ?_
  obtain ⟨known, hSettled⟩ := hSecure.settled
  have hReset : Settled problem.executor good known origin { search with generation := 0 } :=
    hSettled.congr rfl rfl rfl rfl
  let initial (candidates : List (Chromosome τ)) (current : Search ρ τ) : Prop :=
    (candidateBytes * origin.config.population.size ≤ Checked.listBytes ∨ candidates = []) ∧
      candidates.length ≤ 2 * origin.config.population.size ∧
      (∀ chromosome ∈ candidates, chromosome.Wholly good) ∧
      Settled problem.executor good known origin current
  have hFresh : search.remaining ≠ [] → Confines (Broken faults good)
      (· = { search with generation := 0 })
      (freshCandidates problem search.config.population.size) initial := by
    intro hOpen
    have hSize : search.config.population.size = origin.config.population.size := by
      rw [hSettled.config]
    rw [hSize]
    refine (hReset.confines_freshCandidates h hOrigin.room hOpen).weaken ?_
    rintro fresh later ⟨⟨hRoom, hLength, hGood⟩, hLater⟩
    exact ⟨.inl hRoom, by omega, hGood, hLater⟩
  refine Confines.start (fun _ => ⟨.inr rfl, Nat.zero_le _, nofun, hReset⟩) hFresh
    fun candidates current hCurrent => ?_
  obtain ⟨hRoom, hLength, hGood, hCurrent⟩ := hCurrent
  have hEvaluating : Settled problem.executor good known origin
      { current with phase := .evaluating } := hCurrent.congr rfl rfl rfl rfl
  exact (hEvaluating.confines_pass h hOrigin hGood hLength hRoom.resolve_right).weaken
    fun _ _ hNext => ⟨hNext.2.imp fun _ hLater => hLater.congr rfl rfl rfl rfl, hNext.1⟩

/-- A step keeps a search secure, or it breaks off with one of the expected faults. -/
theorem confines_step :
    Confines (Broken faults good) (Secure problem.executor good origin) (step problem)
      fun _ => Secure problem.executor good origin := by
  refine Confines.of_state fun search hSecure => ?_
  obtain ⟨⟨known, hSettled⟩, hGood, hLength, hRoom⟩ := hSecure
  have hEvolving : Settled problem.executor good known origin
      { search with phase := .evolving, population := [] } := hSettled.congr rfl rfl rfl rfl
  refine Confines.step (hEvolving.confines_breed h hOrigin.valid hOrigin.goals hGood
    fun hRanked => (hOrigin.weights hRanked).mono hLength) fun offspring current hBred => ?_
  obtain ⟨⟨hChildren, hFew⟩, hCurrent⟩ := hBred
  have hEvaluating : Settled problem.executor good known origin
      { current with phase := .evaluating } := hCurrent.congr rfl rfl rfl rfl
  have hSize : (search.population ++ offspring).length ≤ 2 * origin.config.population.size := by
    rw [List.length_append]
    omega
  have hParents : search.population ++ offspring ≠ [] → search.population ≠ [] := by
    intro hSome hNone
    rw [hNone, List.length_nil, Nat.le_zero, List.length_eq_zero_iff] at hFew
    exact hSome (by rw [hNone, hFew, List.append_nil])
  exact (hEvaluating.confines_pass h hOrigin (List.forall_mem_append.mpr ⟨hGood, hChildren⟩) hSize
    fun hSome => hRoom (hParents hSome)).weaken
      fun _ _ hNext => ⟨hNext.2.imp fun _ hLater => hLater.congr rfl rfl rfl rfl, hNext.1⟩

/-- Reproducing good parents keeps a search secure, or breaks off with one of the expected faults.
-/
theorem confines_reproduce {first second : Chromosome τ} (hFirst : first.Wholly good)
    (hSecond : second.Wholly good) :
    Confines (Broken faults good) (Secure problem.executor good origin)
      (reproduce first second) fun _ => Secure problem.executor good origin := by
  refine Confines.strengthen (?_ : Confines _ (fun search => ∃ known,
    Settled problem.executor good known origin search ∧
      Populated good origin.config.population.size search.population) _ _)
    fun _ hSecure => hSecure.settled.imp fun _ hSettled => ⟨hSettled, hSecure.population⟩
  refine Confines.of_exists fun known => Confines.inspect_bind fun search hSearch => ?_
  have hValid := hSearch.1.config ▸ hOrigin.valid
  refine Confines.weaken (guards_drawing
    (@insulated_populated ρ τ _ problem.executor good known origin)
    (h.operators.yields_children hValid hFirst hSecond)) fun _ _ hAfter => ?_
  exact ⟨⟨known, hAfter.2.1⟩, hAfter.2.2⟩

/-- The parents that a call is given are good. -/
def Call.Allowed (good : τ → Prop) : Call τ → Prop
  | .start | .step => True
  | .reproduce first second => first.Wholly good ∧ second.Wholly good

/-- Every call that is allowed keeps a search secure, or breaks off with one of the expected faults.
-/
theorem confines_call {call : Call τ} (hCall : call.Allowed good) :
    Confines (Broken faults good) (Secure problem.executor good origin) (call.perform problem)
      fun _ => Secure problem.executor good origin := by
  cases call with
  | start => exact confines_start h hOrigin
  | step => exact confines_step h hOrigin
  | reproduce first second =>
      exact Confines.bind (confines_reproduce h hOrigin hCall.1 hCall.2) fun _ =>
        Confines.pure fun _ hSecure => hSecure

/-- A run is made of steps, and what it does besides takes nothing away from a secure search. With
enough generations left in its budget it does not outlast the budget. -/
theorem continueWith_confined (signals : Nat → Signal) (budget : Nat) {search : Search ρ τ}
    (hSearch : Secure problem.executor good origin search)
    (hBudget : origin.config.population.maxGenerations ≤ search.generation + budget)
    (log : RunLog) :
    match ((continueWith (scripted signals) problem budget search).run log).1 with
    | .ok _ final => Secure problem.executor good origin final
    | .error fault final => Broken faults good fault final := by
  induction budget generalizing search log with
  | zero =>
      obtain ⟨known, hSettled⟩ := hSearch.settled
      obtain ⟨reason, hReason⟩ : ∃ reason, (search.heed (signals log.taken)).stopReason
          (signals log.taken).elapsed = some reason :=
        exists_stopReason _ (hSettled.config ▸ hBudget)
      rw [run_continueWith]
      simp only [hReason]
      exact hSearch.congr rfl rfl rfl rfl rfl
  | succ budget ih =>
      have hHeed : Secure problem.executor good origin (search.heed (signals log.taken)) :=
        hSearch.congr rfl rfl rfl rfl rfl
      rw [run_continueWith]
      dsimp only
      cases (search.heed (signals log.taken)).stopReason (signals log.taken).elapsed with
      | some reason => exact hSearch.congr rfl rfl rfl rfl rfl
      | none =>
          cases hRun : step problem (search.heed (signals log.taken)) with
          | error fault next => exact (confines_step h hOrigin).fault hHeed hRun
          | ok _ next =>
              obtain ⟨known, hSettled⟩ := hHeed.settled
              have hGeneration := generation_of_step hSettled.onward.nodup hRun
              refine ih ((confines_step h hOrigin).answer hHeed hRun) ?_ _
              change _ = search.generation + 1 at hGeneration
              omega

/-- A whole run keeps a search secure, or breaks off with one of the expected faults. Running out of
the budget is not among them, since a reason to stop is found before. -/
theorem confines_run (signals : Nat → Signal) :
    Confines (Broken faults good) (Secure problem.executor good origin) (run problem signals)
      fun _ => Secure problem.executor good origin := by
  intro search hSearch
  rw [run_eq]
  cases hFirst : start problem search with
  | error fault next => exact (confines_start h hOrigin).fault hSearch hFirst
  | ok _ next =>
      have hNext := (confines_start h hOrigin).answer hSearch hFirst
      obtain ⟨known, hSettled⟩ := hSearch.settled
      obtain ⟨_, hStarted⟩ := hNext.settled
      have hGeneration := generation_of_start hSettled.onward.nodup hFirst
      have hRest := continueWith_confined h hOrigin signals next.config.population.maxGenerations
        hNext (by rw [hGeneration, hStarted.config, Nat.zero_add]) ⟨0, [next.progress]⟩
      dsimp only
      generalize (continueWith (scripted signals) problem next.config.population.maxGenerations
        next).run ⟨0, [next.progress]⟩ = ending at hRest ⊢
      obtain ⟨outcome, log⟩ := ending
      cases outcome <;> exact hRest

end WitnessSearch.Search
