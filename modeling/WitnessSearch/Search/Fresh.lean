import WitnessSearch.Number.Checked
import WitnessSearch.Search.State

/-! Fresh candidates. They are either drawn without a goal in mind, or built for the open goals in
turn. A candidate built for a goal is the best of a tournament of candidates drawn for it, and the
tournament ends early with a contestant that meets the goal. -/

namespace WitnessSearch.Search

variable {ρ τ : Type} [HasCode τ]

/-- Draws a contestant for a goal and evaluates it against the goal. -/
def contestant (problem : Problem ρ τ) (goal : Goal) : SearchM ρ τ (Chromosome τ × Float) := do
  let chromosome ← drawing (problem.factory.biased goal)
  let candidate ← evaluating (Evaluator.evaluate problem.executor chromosome goal)
  return (chromosome, candidate.fitness)

/-- Lets up to `rounds` further contestants challenge the best so far. Only a smaller fitness beats
it. -/
def challenge (problem : Problem ρ τ) (goal : Goal) :
    Nat → Chromosome τ × Float → SearchM ρ τ (Chromosome τ)
  | 0, best => return best.1
  | rounds + 1, best => do
    if best.2 == 0.0 then return best.1
    let next ← contestant problem goal
    challenge problem goal rounds (if next.2 < best.2 then next else best)

def biasedCandidate (problem : Problem ρ τ) (goal : Goal) : SearchM ρ τ (Chromosome τ) := do
  let rounds := (← get).config.biasedTournamentSize - 1
  challenge problem goal rounds (← contestant problem goal)

def candidateBytes : Nat := 64

/-- Fresh candidates, spread over the open goals. There has to be such a goal, and room for all the
candidates before the first is drawn. -/
def freshCandidates (problem : Problem ρ τ) (count : Nat) : SearchM ρ τ (List (Chromosome τ)) := do
  let search ← get
  if search.remaining.isEmpty then throw .noOpenGoals
  ofExcept (Checked.reserve candidateBytes count)
  match search.config.population.initialization with
  | .uniform => (List.replicate count ()).mapM fun _ => drawing problem.factory.fresh
  | .roundRobin =>
    let goals := search.remaining.toArray
    (List.range count).mapM fun i => do
      biasedCandidate problem (← ofExcept (Checked.fetch goals (i % goals.size)))

end WitnessSearch.Search
