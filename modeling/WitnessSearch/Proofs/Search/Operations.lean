import WitnessSearch.Proofs.Checked
import WitnessSearch.Proofs.Diversity
import WitnessSearch.Proofs.Effects
import WitnessSearch.Search.Generation

/-! The rules for the operations of a search. Each says what has to be shown of the parts of an
operation, in a given state and for both outcomes, so that nothing else opens the operation. -/

namespace WitnessSearch

open Search

variable {ρ τ α : Type} {faults : Fault → Search ρ τ → Prop} {invariant : Search ρ τ → Prop}
  {search : Search ρ τ}

namespace Confines

/-- A draw has to do with the source and nothing else. -/
protected theorem drawing {draw : Draw ρ α} {after : α → Search ρ τ → Prop}
    (h : match draw search.source with
      | .ok answer source => after answer { search with source }
      | .error fault source => faults fault { search with source }) :
    Confines faults (· = search) (drawing draw) after := by
  rintro search rfl
  unfold Search.drawing
  cases hRun : draw search.source with
  | ok answer source => rwa [hRun] at h
  | error fault source => rwa [hRun] at h

/-- An evaluation has to do with the evaluator and nothing else. -/
protected theorem evaluating {evaluation : Evaluation α} {after : α → Search ρ τ → Prop}
    (h : match evaluation search.evaluator with
      | .ok answer evaluator => after answer { search with evaluator }
      | .error fault evaluator => faults fault { search with evaluator }) :
    Confines faults (· = search) (evaluating evaluation) after := by
  rintro search rfl
  unfold Search.evaluating
  dsimp only
  cases hRun : evaluation search.evaluator with
  | ok answer evaluator => rwa [hRun] at h
  | error fault evaluator => rwa [hRun] at h

end Confines

section Fresh

variable [HasCode τ] {problem : Problem ρ τ} {goal : Goal} {drawn : Chromosome τ → Prop}

/-- A contestant is drawn and evaluated once. -/
protected theorem Guards.contestant
    (hDraw : Guards faults invariant (drawing (problem.factory.biased goal)) drawn)
    (hEvaluate : ∀ chromosome, drawn chromosome → Guards faults invariant
      (evaluating (Evaluator.evaluate problem.executor chromosome goal)) fun _ => True) :
    Guards faults invariant (contestant problem goal) fun contestant => drawn contestant.1 :=
  Guards.bind hDraw fun chromosome hDrawn =>
    Guards.bind (hEvaluate chromosome hDrawn) fun _ _ => Guards.pure hDrawn

/-- The winner of a tournament is one of the contestants. -/
protected theorem Guards.biasedCandidate
    (h : Guards faults invariant (contestant problem goal) fun contestant => drawn contestant.1) :
    Guards faults invariant (biasedCandidate problem goal) drawn := by
  have hChallenge : ∀ (rounds : Nat) (best : Chromosome τ × Float), drawn best.1 →
      Guards faults invariant (challenge problem goal rounds best) drawn := by
    intro rounds
    induction rounds with
    | zero => exact fun best hBest => Guards.pure hBest
    | succ rounds ih =>
        intro best hBest
        unfold challenge
        split
        · exact Guards.pure hBest
        · refine Guards.bind h fun next hNext => ih _ ?_
          split
          · exact hNext
          · exact hBest
  exact Guards.get_bind fun _ _ => Guards.bind h fun first hFirst => hChallenge _ first hFirst

/-- Fresh candidates are drawn from the factory one way or the other, if goals are open and there is
room for them. -/
protected theorem Confines.freshCandidates {count : Nat} {property : Chromosome τ → Prop}
    (hHere : invariant search) (hClosed : search.remaining = [] → faults .noOpenGoals search)
    (hFull : ¬candidateBytes * count ≤ Checked.listBytes → faults .capacityOverflow search)
    (hFresh : Guards faults invariant (drawing problem.factory.fresh) property)
    (hBiased : ∀ goal ∈ search.remaining,
      Guards faults invariant (biasedCandidate problem goal) property) :
    Confines faults (· = search) (freshCandidates problem count) fun fresh later =>
      (candidateBytes * count ≤ Checked.listBytes ∧ fresh.length = count ∧
        ∀ chromosome ∈ fresh, property chromosome) ∧ invariant later := by
  refine Confines.get_bind_of ?_
  dsimp only
  split
  · rename_i hNone
    intro current hCurrent
    exact hCurrent ▸ hClosed (List.isEmpty_iff.mp hNone)
  rename_i hOpen
  by_cases hFits : candidateBytes * count ≤ Checked.listBytes
  swap
  · rw [Checked.reserve, if_neg hFits]
    intro current hCurrent
    exact hCurrent ▸ hFull hFits
  refine Confines.ofExcept_bind (Checked.reserve_eq_ok_iff.mpr hFits) ?_
  have hAll : ∀ {α : Type} {xs : List α} {next : α → SearchM ρ τ (Chromosome τ)},
      xs.length = count → (∀ x ∈ xs, Guards faults invariant (next x) property) →
      Guards faults invariant (xs.mapM next) fun fresh =>
        candidateBytes * count ≤ Checked.listBytes ∧ fresh.length = count ∧
          ∀ chromosome ∈ fresh, property chromosome := by
    intro α xs next hLength hNext
    refine Guards.weaken (Guards.mapM hNext) fun fresh hDrawn =>
      ⟨hFits, hDrawn.length_eq.symm.trans hLength, fun chromosome hMem => ?_⟩
    obtain ⟨_, -, hProperty⟩ := exists_left_of_related hDrawn hMem
    exact hProperty
  refine Confines.strengthen ?_ fun _ hSame => hSame ▸ hHere
  split
  · exact hAll List.length_replicate fun _ _ => hFresh
  · refine hAll List.length_range fun i _ => ?_
    have hPlace : i % search.remaining.length < search.remaining.length :=
      Nat.mod_lt _ (List.length_pos_iff.mpr (List.isEmpty_iff.not.mp hOpen))
    exact Confines.ofExcept_bind (Checked.fetch_of_lt hPlace) (hBiased _ (List.getElem_mem hPlace))

/-- A population that is short is filled up while goals are open, and any other one is kept. -/
protected theorem Confines.topUp {size : Nat} {members : List (Chromosome τ)}
    {after : List (Chromosome τ) → Search ρ τ → Prop}
    (hShort : members.length < size → search.remaining ≠ [] →
      Confines faults (· = search) (freshCandidates problem (size - members.length)) fun fresh =>
        after (members ++ fresh))
    (hKept : (members.length < size → search.remaining = []) → after members search) :
    Confines faults (· = search) (topUp problem size members) after := by
  refine Confines.get_bind_of ?_
  split
  · rename_i h
    exact Confines.bind (hShort h.1 (List.isEmpty_iff.not.mp h.2)) fun fresh =>
      Confines.pure fun _ hFresh => hFresh
  · rename_i h
    refine Confines.pure_of (hKept fun hLess => ?_)
    by_contra hOpen
    exact h ⟨hLess, List.isEmpty_iff.not.mpr hOpen⟩

end Fresh

section Breeding

variable [RandomSource ρ] [HasCode τ] [Variation ρ τ] {parents : List (Chromosome τ)}

omit [HasCode τ] in
/-- The parents of a litter are drawn by their places, which have to be there. -/
protected theorem Guards.litter {scores : Array Float} {selected : Nat → Prop}
    {property : List (Chromosome τ) → Prop}
    (hSelect : ∀ search, invariant search →
      Guards faults invariant (drawing (selectIndex search.config.selection scores)) selected)
    (hPlace : ∀ i search, selected i → invariant search → parents.length ≤ i →
      faults (.indexOutOfBounds parents.length i) search)
    (hReproduce : ∀ first ∈ parents, ∀ second ∈ parents, Guards faults invariant
      (reproduce first second) fun pair => property [pair.1, pair.2]) :
    Guards faults invariant (litter parents.toArray scores) property := by
  have hFetch : ∀ i, selected i → Guards faults invariant
      (ofExcept (Checked.fetch parents.toArray i) : SearchM ρ τ (Chromosome τ))
      fun parent => parent ∈ parents := by
    intro i hSelected
    by_cases hi : i < parents.length
    · rw [Checked.fetch_of_lt hi]
      exact Guards.pure (List.getElem_mem hi)
    · have hMissing : Checked.fetch parents.toArray i =
          .error (.indexOutOfBounds parents.length i) := by
        simp [Checked.fetch, Nat.not_lt.mp hi]
      rw [hMissing]
      exact fun search hSearch => hPlace i search hSelected hSearch (Nat.not_lt.mp hi)
  refine Guards.get_bind fun search hSearch => ?_
  refine Guards.bind (hSelect search hSearch) fun i hi => ?_
  refine Guards.bind (hSelect search hSearch) fun j hj => ?_
  refine Guards.bind (hFetch i hi) fun first hFirst => ?_
  refine Guards.bind (hFetch j hj) fun second hSecond => ?_
  exact Guards.bind (hReproduce first hFirst second hSecond) fun pair hPair => Guards.pure hPair

/-- Parents are scored once, and then they leave as many litters as are needed. -/
protected theorem Confines.breed {problem : Problem ρ τ} {scored : List (List Float) → Prop}
    {property : List (Chromosome τ) → Prop} (hNone : parents = [] → invariant search)
    (hScores : parents ≠ [] → Confines faults (· = search)
      (evaluating (Evaluator.fitnessMatrix problem.executor parents search.remaining))
      fun matrix later => scored matrix ∧ invariant later)
    (hLitter : ∀ matrix, parents ≠ [] → scored matrix → Guards faults invariant
      (litter parents.toArray (matrix.map meanFitness).toArray) property) :
    Confines faults (· = search) (breed problem parents) fun offspring later =>
      (∃ litters : List (List (Chromosome τ)), litters.length = (parents.length + 1) / 2 ∧
        (∀ litter ∈ litters, property litter) ∧
          offspring = litters.flatten.take parents.length) ∧ invariant later := by
  unfold Search.breed
  split
  · rename_i hEmpty
    obtain rfl := List.isEmpty_iff.mp hEmpty
    exact Confines.pure_of ⟨⟨[], by simp, nofun, rfl⟩, hNone rfl⟩
  · rename_i hSome
    have hParents : parents ≠ [] := List.isEmpty_iff.not.mp hSome
    refine Confines.get_bind_of ?_
    refine Confines.bind (hScores hParents) fun matrix => Confines.of_fact fun hMatrix => ?_
    refine Guards.bind (Guards.mapM fun _ _ => hLitter matrix hParents hMatrix)
      fun litters hLitters => Guards.pure ⟨litters, ?_, fun litter hMem => ?_, rfl⟩
    · exact hLitters.length_eq.symm.trans List.length_replicate
    · obtain ⟨_, -, hProperty⟩ := exists_left_of_related hLitters hMem
      exact hProperty

end Breeding

section Offers

/-- A share of some candidates, rounded up. It is at least one of them and at most all. -/
def Search.share (fraction : Float) (count : Nat) : Nat :=
  max 1 (min (Float.ofNat count * fraction).ceil.toUInt64.toNat count)

/-- One of some candidates can always be offered. -/
theorem Search.attempts_eq_share (fraction : Float) {count : Nat} (h : 0 < count) :
    attempts fraction count = .ok (share fraction count) := by
  rw [attempts, share, Checked.clampCount, if_neg (Nat.not_lt.mpr h)]
  congr 1
  split
  · omega
  · split <;> omega

variable [RandomSource ρ] [HasCode τ] [Variation ρ τ] {problem : Problem ρ τ} {goal : Goal}

/-- The archive answers an offer, and a rejected candidate is mutated. -/
protected theorem Confines.offer {candidate : Evaluated τ}
    {after : Option (Chromosome τ) → Search ρ τ → Prop}
    (hAccepted : ∀ covered archive, search.archive.offer goal candidate.chromosome
      candidate.execution.observation search.generation = (.accepted covered, archive) →
        after none { search with archive })
    (hRejected : ∀ reason archive, search.archive.offer goal candidate.chromosome
      candidate.execution.observation search.generation = (.rejected reason, archive) →
        Confines faults (· = { search with archive }) (drawing candidate.chromosome.mutate)
          fun mutant => after (some mutant)) :
    Confines faults (· = search) (offer goal candidate) after := by
  refine Confines.get_bind_of ?_
  dsimp only
  cases hAnswer : search.archive.offer goal candidate.chromosome candidate.execution.observation
      search.generation with
  | mk admission archive =>
      have hSet : Confines faults (· = search) (set { search with archive } : SearchM ρ τ PUnit)
          fun _ => (· = { search with archive }) :=
        Confines.set fun _ _ => rfl
      refine Confines.bind hSet fun _ => ?_
      cases admission with
      | accepted covered => exact Confines.pure_of (hAccepted covered archive hAnswer)
      | rejected reason =>
          exact Confines.bind (hRejected reason archive hAnswer) fun mutant =>
            Confines.pure fun _ hAfter => hAfter

/-- A share of the candidates is offered, and the others are withheld. -/
protected theorem Confines.offerInOrder {candidates : List (Evaluated τ)}
    {offered : List (Option (Chromosome τ)) → Search ρ τ → Prop}
    {after : Induction τ → Search ρ τ → Prop} (hSome : candidates ≠ [])
    (hOffers : Confines faults (· = search) ((candidates.take
      (share search.config.archiveFraction candidates.length)).mapM (offer goal)) offered)
    (hAfter : ∀ answers later, offered answers later → after {
      recycled := answers.filterMap id ++ (candidates.drop
        (share search.config.archiveFraction candidates.length)).map (·.chromosome)
      accepted := answers.countP Option.isNone } later) :
    Confines faults (· = search) (offerInOrder goal candidates) after := by
  refine Confines.get_bind_of ?_
  rw [attempts_eq_share _ (List.length_pos_iff.mpr hSome)]
  exact Confines.ofExcept_bind rfl
    (Confines.bind hOffers fun answers => Confines.pure (hAfter answers))

/-- Candidates that meet the goal are put into the order of diversity and offered. -/
protected theorem Confines.induct {row : List (Evaluated τ)}
    {met : List (Evaluated τ) → Search ρ τ → Prop} {after : Induction τ → Search ρ τ → Prop}
    (hRefresh : Confines faults (· = search)
      (evaluating (Diversity.refresh problem.executor goal row)) met)
    (hNone : ∀ later, met [] later → after ⟨[], 0⟩ later)
    (hRank : ∀ covering fault later, Diversity.rank goal covering = .error fault →
      met covering later → faults fault later)
    (hOffers : ∀ covering candidates, Diversity.Arranges goal covering candidates →
      candidates ≠ [] → Confines faults (met covering) (offerInOrder goal candidates) after) :
    Confines faults (· = search) (induct problem goal row) after := by
  refine Confines.bind hRefresh fun covering => ?_
  split
  · rename_i hEmpty
    obtain rfl := List.isEmpty_iff.mp hEmpty
    exact Confines.pure hNone
  rename_i hSome
  refine Confines.bind_ofExcept (hRank covering) fun order hOrder => ?_
  have hPlaces : ∀ i ∈ order, i < covering.length := fun i hi =>
    List.mem_range.mp ((Diversity.perm_of_rank hOrder).mem_iff.mp hi)
  have hFetch : ∀ i ∈ order, Guards faults (met covering)
      (ofExcept (Checked.fetch covering.toArray i) : SearchM ρ τ (Evaluated τ))
      fun candidate => covering[i]? = some candidate := by
    intro i hi
    rw [Checked.fetch_of_lt (hPlaces i hi)]
    exact Guards.pure (List.getElem?_eq_getElem (hPlaces i hi))
  refine Confines.bind (Guards.mapM hFetch) fun candidates => Confines.of_fact fun hFetched => ?_
  have hArranged : Diversity.Arranges goal covering candidates := ⟨order, hOrder, hFetched⟩
  refine hOffers covering candidates hArranged ?_
  rintro rfl
  exact hSome (List.isEmpty_iff.mpr (List.nil_perm.mp hArranged.perm))

end Offers

section Generation

variable [RandomSource ρ] [HasCode τ] [Variation ρ τ] {problem : Problem ρ τ}

def Search.updated (search : Search ρ τ) : Search ρ τ :=
  { search with remaining := search.remaining.filter fun goal => !search.archive.isCovered goal }

def Search.recorded (search : Search ρ τ) (accepted : Nat) : Search ρ τ :=
  { search with history := {
      remainingGoals := search.history.remainingGoals ++ [search.remaining.length]
      archiveSize := search.history.archiveSize ++ [search.archive.size]
      cacheEntries := search.history.cacheEntries ++ [search.evaluator.memo.size]
      accepted := search.history.accepted ++ [accepted] } }

def Search.acceptedBy (inductions : List (Induction τ)) : Nat :=
  inductions.foldl (fun total induction => total + induction.accepted) 0

def Search.ranked (goals remaining : List Goal) (candidates : List (Chromosome τ))
    (rows : List (List (Evaluated τ))) : List (Contender τ) :=
  contenders goals remaining candidates
    (Evaluator.transpose candidates.length (rows.map fun row => row.map (·.fitness)))

omit [RandomSource ρ] [Variation ρ τ] in
/-- After the offers the goals are brought up to date. The contenders are ranked, the survivors
chosen, the population is filled up, and the history written. -/
protected theorem Confines.nextPopulation {config : Config} {goals : List Goal}
    {candidates : List (Chromosome τ)} {rows : List (List (Evaluated τ))}
    {inductions : List (Induction τ)} {after : List (Chromosome τ) → Search ρ τ → Prop}
    (hRanking : ∀ fault, rankContenders config.ranking search.archive
      (ranked goals search.updated.remaining candidates rows) = .error fault →
        faults fault search.updated)
    (hSurvivors : ∀ ranking fault, rankContenders config.ranking search.archive
      (ranked goals search.updated.remaining candidates rows) = .ok ranking →
        survivors config.population.size (inductions.flatMap (·.recycled))
          (ranked goals search.updated.remaining candidates rows) ranking = .error fault →
            faults fault search.updated)
    (hTopUp : ∀ ranking kept, rankContenders config.ranking search.archive
      (ranked goals search.updated.remaining candidates rows) = .ok ranking →
        survivors config.population.size (inductions.flatMap (·.recycled))
          (ranked goals search.updated.remaining candidates rows) ranking = .ok kept →
            Confines faults (· = search.updated) (topUp problem config.population.size kept)
              fun next later => after next (later.recorded (acceptedBy inductions))) :
    Confines faults (· = search)
      (nextPopulation problem config goals candidates rows inductions) after := by
  refine Confines.modify_bind_of (Confines.get_bind_of ?_)
  refine Confines.bind_ofExcept ?_ fun ranking hRanked => ?_
  · rintro fault _ hFault rfl
    exact hRanking fault hFault
  refine Confines.bind_ofExcept ?_ fun kept hKept => ?_
  · rintro fault _ hFault rfl
    exact hSurvivors ranking fault hRanked hFault
  refine Confines.bind (hTopUp ranking kept hRanked hKept) fun next => ?_
  have hRecord : Confines faults (fun later => after next (later.recorded (acceptedBy inductions)))
      (recordPass (acceptedBy inductions) : SearchM ρ τ Unit) fun _ => after next :=
    Confines.modify fun _ hLater => hLater
  exact Confines.bind hRecord fun _ => Confines.pure fun _ hAfter => hAfter

/-- A pass evaluates its candidates, deals with the goals one after another, and goes on to the next
population. -/
protected theorem Confines.pass {candidates : List (Chromosome τ)}
    {judged : List (List (Evaluated τ)) → Search ρ τ → Prop}
    {dealt : List (List (Evaluated τ)) → List (Induction τ) → Search ρ τ → Prop}
    {after : List (Chromosome τ) → Search ρ τ → Prop}
    (hClosed : search.remaining = [] → after (candidates.take search.config.population.size) search)
    (hBatch : search.remaining ≠ [] → Confines faults (· = search)
      (evaluating (Evaluator.evaluateBatch problem.executor candidates search.remaining)) judged)
    (hInductions : ∀ rows, Confines faults (judged rows)
      ((search.remaining.zip rows).mapM fun entry => induct problem entry.1 entry.2) (dealt rows))
    (hNext : ∀ rows inductions, Confines faults (dealt rows inductions)
      (nextPopulation problem search.config search.remaining candidates rows inductions) after) :
    Confines faults (· = search) (pass problem candidates) after := by
  refine Confines.get_bind_of ?_
  dsimp only
  split
  · rename_i hNone
    exact Confines.pure_of (hClosed (List.isEmpty_iff.mp hNone))
  · rename_i hOpen
    refine Confines.bind (hBatch (List.isEmpty_iff.not.mp hOpen)) fun rows => ?_
    exact Confines.bind (hInductions rows) fun inductions => hNext rows inductions

/-- A start draws its first candidates, if goals are open, and makes a pass. -/
protected theorem Confines.start {initial : List (Chromosome τ) → Search ρ τ → Prop}
    {after : Search ρ τ → Prop}
    (hClosed : search.remaining = [] → initial [] { search with generation := 0 })
    (hFresh : search.remaining ≠ [] → Confines faults (· = { search with generation := 0 })
      (freshCandidates problem search.config.population.size) initial)
    (hPass : ∀ candidates current, initial candidates current →
      Confines faults (· = { current with phase := .evaluating }) (pass problem candidates)
        fun population later => after { later with population }) :
    Confines faults (· = search) (start problem) fun _ => after := by
  have hRest : ∀ candidates, Confines faults (initial candidates) (do
      modify fun search => { search with phase := .evaluating }
      let population ← pass problem candidates
      modify fun search => { search with population } : SearchM ρ τ Unit) fun _ => after := by
    refine fun candidates => Confines.of_state fun current hCurrent => ?_
    refine Confines.modify_bind_of ?_
    exact Confines.bind (hPass candidates current hCurrent) fun population =>
      Confines.modify fun _ hLater => hLater
  refine Confines.modify_bind_of (Confines.get_bind_of ?_)
  dsimp only
  split
  · rename_i hNone
    rw [pure_bind]
    refine (hRest []).strengthen ?_
    rintro _ rfl
    exact hClosed (List.isEmpty_iff.mp hNone)
  · rename_i hOpen
    exact Confines.bind (hFresh (List.isEmpty_iff.not.mp hOpen)) hRest

/-- A step breeds from the population, makes a pass with the parents first, and counts. -/
protected theorem Confines.step {bred : List (Chromosome τ) → Search ρ τ → Prop}
    {after : Search ρ τ → Prop}
    (hBreed : Confines faults (· = { search with phase := .evolving, population := [] })
      (breed problem search.population) bred)
    (hPass : ∀ offspring current, bred offspring current →
      Confines faults (· = { current with phase := .evaluating })
        (pass problem (search.population ++ offspring)) fun population later =>
          after { later with population, generation := later.generation + 1 }) :
    Confines faults (· = search) (step problem) fun _ => after := by
  refine Confines.get_bind_of (Confines.modify_bind_of (Confines.bind hBreed fun offspring => ?_))
  refine Confines.of_state fun current hCurrent => Confines.modify_bind_of ?_
  exact Confines.bind (hPass offspring current hCurrent) fun population =>
    Confines.modify fun _ hLater => hLater

end Generation

end WitnessSearch
