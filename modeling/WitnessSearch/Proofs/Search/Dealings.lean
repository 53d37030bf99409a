import WitnessSearch.Proofs.Archive.Offers
import WitnessSearch.Proofs.Evaluation.Records
import WitnessSearch.Proofs.Search.Pass

/-! How the candidates that meet the goals of a pass are dealt with. The order of diversity is an
order of all of them: each is either offered to the archive or withheld, and none twice. An accepted
one is gone, a rejected one comes back mutated, and a withheld one comes back as it was. -/

namespace WitnessSearch

/-- An offer that was made, the answer to it, and the candidate that came back. -/
structure Attempt (τ : Type) where
  offer : Offer τ
  answer : Admission
  back : Option (Chromosome τ)

/-- What was done with the candidates that meet one goal. -/
structure Dealing (τ : Type) where
  goal : Goal
  /-- The offers in their order. -/
  attempts : List (Attempt τ)
  /-- The candidates that were not offered. -/
  withheld : List (Chromosome τ)

variable {ρ τ : Type}

/-- Nothing comes back of an accepted offer, and a mutant of a rejected one. -/
def Attempt.Fair (ρ : Type) [Variation ρ τ] [RandomSource ρ] (attempt : Attempt τ) : Prop :=
  match attempt.answer with
  | .accepted _ => attempt.back = none
  | .rejected _ => ∃ (source later : ρ) (mutant : Chromosome τ),
    attempt.offer.chromosome.mutate source = .ok mutant later ∧ attempt.back = some mutant

/-- An evaluated candidate as it is offered for the goal it was evaluated against. -/
def Offer.ofEvaluated (generation : Nat) (candidate : Evaluated τ) : Offer τ :=
  ⟨candidate.chromosome, candidate.execution.observation, generation⟩

namespace Dealing

def log (dealing : Dealing τ) : List (Goal × Attempt τ) :=
  dealing.attempts.map fun attempt => (dealing.goal, attempt)

def recycled (dealing : Dealing τ) : List (Chromosome τ) :=
  dealing.attempts.filterMap (·.back) ++ dealing.withheld

def induction (dealing : Dealing τ) : Search.Induction τ :=
  ⟨dealing.recycled, dealing.attempts.countP (·.back.isNone)⟩

/-- The candidates of an evaluated row that meet the goal were dealt with in the order of diversity:
a share of them was offered, and what stands behind it was withheld. -/
structure Handles (ρ : Type) [Variation ρ τ] [RandomSource ρ] (dealing : Dealing τ)
    (fraction : Float) (generation : Nat) (goal : Goal) (row : List (Evaluated τ)) : Prop where
  goal_eq : dealing.goal = goal
  fair : ∀ attempt ∈ dealing.attempts, attempt.Fair ρ
  arranged : ∃ candidates, Diversity.Arranges goal (row.filter (·.isCovered)) candidates ∧
    dealing.attempts.map (·.offer) =
      (candidates.take (Search.share fraction candidates.length)).map
        (Offer.ofEvaluated generation) ∧
    dealing.withheld =
      (candidates.drop (Search.share fraction candidates.length)).map (·.chromosome)

/-- The candidates of an evaluated row that meet the goal were dealt with. -/
structure Settles (ρ : Type) [Variation ρ τ] [RandomSource ρ] (dealing : Dealing τ)
    (generation : Nat) (goal : Goal) (row : List (Evaluated τ)) : Prop where
  goal : dealing.goal = goal
  fair : ∀ attempt ∈ dealing.attempts, attempt.Fair ρ
  offers : ∀ attempt ∈ dealing.attempts, ∃ candidate ∈ row, candidate.isCovered = true ∧
    attempt.offer = ⟨candidate.chromosome, candidate.execution.observation, generation⟩
  parted : (dealing.attempts.map (·.offer.chromosome) ++ dealing.withheld).Perm
    ((row.filter (·.isCovered)).map (·.chromosome))

end Dealing

/-- The offers of a log, answered as it says, lead from one archive to the other. -/
inductive Archive.Answers [HasCode τ] (before : Archive τ) :
    List (Goal × Attempt τ) → Archive τ → Prop where
  | nothing : Answers before [] before
  | offer {log : List (Goal × Attempt τ)} {middle after : Archive τ} {goal : Goal}
      {attempt : Attempt τ} (prior : Answers before log middle)
      (last : middle.submit goal attempt.offer = (attempt.answer, after)) :
      Answers before (log ++ [(goal, attempt)]) after

namespace Dealing

variable [RandomSource ρ] [Variation ρ τ] {dealing : Dealing τ} {fraction : Float}
  {generation : Nat} {goal : Goal} {row : List (Evaluated τ)}

/-- All candidates that meet the goal were either offered or withheld, and none twice. -/
theorem Handles.settles (h : dealing.Handles ρ fraction generation goal row) :
    dealing.Settles ρ generation goal row := by
  obtain ⟨candidates, hArranged, hOffers, hWithheld⟩ := h.arranged
  refine ⟨h.goal_eq, h.fair, ?_, ?_⟩
  · intro attempt hMem
    have hOffer : attempt.offer ∈ dealing.attempts.map (·.offer) := List.mem_map_of_mem hMem
    rw [hOffers] at hOffer
    obtain ⟨candidate, hCandidate, hSame⟩ := List.mem_map.mp hOffer
    have hIn := hArranged.perm.mem_iff.mp (List.mem_of_mem_take hCandidate)
    rw [List.mem_filter] at hIn
    exact ⟨candidate, hIn.1, hIn.2, hSame.symm⟩
  · have hOffered : dealing.attempts.map (·.offer.chromosome) =
        (candidates.take (Search.share fraction candidates.length)).map (·.chromosome) := by
      have hChromosomes := congrArg (List.map Offer.chromosome) hOffers
      simpa [Function.comp_def, Offer.ofEvaluated] using hChromosomes
    rw [hOffered, hWithheld, ← List.map_append, List.take_append_drop]
    exact hArranged.perm.map _

end Dealing

namespace Search

variable [HasCode τ]

/-- A search in the middle of its offers. The offers of the log have been made since it was in the
state `origin`, and but for the source nothing else has changed. -/
structure Offering (origin : Search ρ τ) (log : List (Goal × Attempt τ)) (search : Search ρ τ) :
    Prop where
  answers : origin.archive.Answers log search.archive
  aside : search = { origin with source := search.source, archive := search.archive }

theorem Offering.refl (search : Search ρ τ) : Offering search [] search :=
  ⟨.nothing, rfl⟩

variable [RandomSource ρ] [Variation ρ τ] {origin : Search ρ τ} {log : List (Goal × Attempt τ)}

/-- An offer puts one attempt on the log, with the answer it got. -/
theorem ensures_offer_offering (goal : Goal) (candidate : Evaluated τ) :
    Ensures (Offering origin log) (offer goal candidate) fun back search =>
      ∃ attempt : Attempt τ, attempt.back = back ∧
        (attempt.offer = ⟨candidate.chromosome, candidate.execution.observation,
          origin.generation⟩ ∧ attempt.Fair ρ) ∧
        Offering origin (log ++ [(goal, attempt)]) search := by
  refine Ensures.of_state fun current hCurrent => ?_
  let made : Offer τ :=
    ⟨candidate.chromosome, candidate.execution.observation, origin.generation⟩
  have hMade : current.archive.offer goal candidate.chromosome candidate.execution.observation
      current.generation = current.archive.submit goal made := by
    rw [congrArg (·.generation) hCurrent.aside]
    rfl
  have hNext : ∀ {answer archive}, current.archive.submit goal made = (answer, archive) →
      ∀ source back, Offering origin (log ++ [(goal, ⟨made, answer, back⟩)])
        { current with source, archive } := by
    intro answer archive hAnswer source back
    exact ⟨.offer hCurrent.answers hAnswer, by rw [hCurrent.aside]⟩
  refine Confines.offer (fun covered archive hAnswer => ?_) fun reason archive hAnswer => ?_
  · exact ⟨⟨made, .accepted covered, none⟩, rfl, ⟨rfl, rfl⟩, hNext (hMade ▸ hAnswer) _ _⟩
  · refine Confines.drawing ?_
    split
    · rename_i mutant source hDrawn
      exact ⟨⟨made, .rejected reason, some mutant⟩, rfl, ⟨rfl, _, _, _, hDrawn, rfl⟩,
        hNext (hMade ▸ hAnswer) _ _⟩
    · trivial

/-- Offering the candidates of a goal in their order is one dealing, and all of its attempts are on
the log. -/
theorem ensures_offerInOrder_offering (goal : Goal) {candidates : List (Evaluated τ)}
    (hSome : candidates ≠ []) :
    Ensures (Offering origin log) (offerInOrder goal candidates) fun induction search =>
      ∃ dealing : Dealing τ, dealing.induction = induction ∧
        (dealing.goal = goal ∧ (∀ attempt ∈ dealing.attempts, attempt.Fair ρ) ∧
          let offered := share origin.config.archiveFraction candidates.length
          dealing.attempts.map (·.offer) =
              (candidates.take offered).map (Offer.ofEvaluated origin.generation) ∧
            dealing.withheld = (candidates.drop offered).map (·.chromosome)) ∧
        Offering origin (log ++ dealing.log) search := by
  have hOffer : ∀ count, ∀ candidate ∈ candidates.take count, ∀ log : List (Goal × Attempt τ),
      Ensures (Offering origin log) (offer goal candidate) fun back search =>
        ∃ attempt : Attempt τ, attempt.back = back ∧
          (attempt.offer = Offer.ofEvaluated origin.generation candidate ∧ attempt.Fair ρ) ∧
          Offering origin (log ++ [(goal, attempt)]) search :=
    fun _ candidate _ _ => ensures_offer_offering goal candidate
  refine Ensures.of_state fun search hSearch => ?_
  have hFraction : search.config.archiveFraction = origin.config.archiveFraction :=
    congrArg (·.config.archiveFraction) hSearch.aside
  rw [← hFraction]
  generalize hCount : share search.config.archiveFraction candidates.length = count
  refine Confines.offerInOrder hSome
    ((Ensures.mapM_traced (hOffer _) log).confines.starting hSearch) ?_
  rintro answers later ⟨attempts, rfl, hAttempts, hLater⟩
  rw [hCount] at hAttempts ⊢
  refine ⟨⟨goal, attempts, (candidates.drop count).map (·.chromosome)⟩, ?_, ⟨rfl, ?_, ?_, rfl⟩, ?_⟩
  · simp [Dealing.induction, Dealing.recycled, List.filterMap_map, List.countP_map,
      Function.comp_def]
  · intro attempt hMem
    obtain ⟨_, -, -, hFair⟩ := exists_left_of_related hAttempts hMem
    exact hFair
  · exact map_eq_map_of_related (hAttempts.imp fun _ _ h => h.1)
  · rw [List.foldl_append_eq_append, ← List.flatMap_def, ← List.map_eq_flatMap] at hLater
    exact hLater

variable {problem : Problem ρ τ}

/-- The candidates of a row that meet its goal are all dealt with. -/
theorem ensures_induct_offering {goal : Goal} {row : List (Evaluated τ)}
    (hBound : ∀ candidate ∈ row, candidate.goal = goal) :
    Ensures (Offering origin log) (induct problem goal row) fun induction search =>
      ∃ dealing : Dealing τ, dealing.induction = induction ∧
        dealing.Handles ρ origin.config.archiveFraction origin.generation goal row ∧
        Offering origin (log ++ dealing.log) search := by
  have hRefresh : Ensures (Offering origin log)
      (evaluating (Diversity.refresh problem.executor goal row)) fun covering search =>
        covering = row.filter (·.isCovered) ∧ Offering origin log search := by
    rw [Diversity.refresh_of_bound problem.executor hBound]
    exact Ensures.of_state fun _ hSearch => Confines.evaluating ⟨rfl, hSearch⟩
  refine Ensures.of_state fun search hSearch => Confines.induct
    (hRefresh.confines.starting hSearch) ?_ (fun _ _ _ _ _ => trivial) ?_
  · rintro later ⟨hCovering, hLater⟩
    refine ⟨⟨goal, [], []⟩, rfl, ⟨rfl, nofun, [], ?_, by simp, by simp⟩, ?_⟩
    · exact hCovering ▸ Diversity.arranges_nil goal
    · simpa [Dealing.log] using hLater
  · refine fun covering candidates hArranged hSome => Confines.of_fact fun hCovering => ?_
    subst hCovering
    refine (ensures_offerInOrder_offering goal hSome).confines.weaken ?_
    rintro induction later ⟨dealing, hInduction, ⟨hGoal, hFair, hOffers, hWithheld⟩, hLater⟩
    exact ⟨dealing, hInduction, ⟨hGoal, hFair, candidates, hArranged, hOffers, hWithheld⟩, hLater⟩

/-- The inductions of a pass are dealings of one goal after another. -/
theorem ensures_inductions_offering {entries : List (Goal × List (Evaluated τ))}
    (hBound : ∀ entry ∈ entries, ∀ candidate ∈ entry.2, candidate.goal = entry.1) :
    Ensures (Offering origin []) (entries.mapM fun entry => induct problem entry.1 entry.2)
      fun inductions search => ∃ dealings : List (Dealing τ),
        dealings.map Dealing.induction = inductions ∧
        List.Forall₂ (fun entry dealing => dealing.Handles ρ origin.config.archiveFraction
          origin.generation entry.1 entry.2) entries dealings ∧
        Offering origin (dealings.flatMap Dealing.log) search := by
  have hInduct : ∀ entry ∈ entries, ∀ log : List (Goal × Attempt τ),
      Ensures (Offering origin log) (induct problem entry.1 entry.2) fun induction search =>
        ∃ dealing : Dealing τ, dealing.induction = induction ∧
          dealing.Handles ρ origin.config.archiveFraction origin.generation entry.1 entry.2 ∧
          Offering origin (log ++ dealing.log) search :=
    fun entry hMem _ => ensures_induct_offering (hBound entry hMem)
  refine (Ensures.mapM_traced hInduct []).weaken ?_
  rintro inductions search ⟨dealings, hInductions, hHandles, hSearch⟩
  rw [List.foldl_append_eq_append, ← List.flatMap_def] at hSearch
  exact ⟨dealings, hInductions, hHandles, hSearch⟩

end Search

end WitnessSearch
