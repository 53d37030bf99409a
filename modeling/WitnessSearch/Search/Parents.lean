import WitnessSearch.Ranking.Sorting
import WitnessSearch.Number.Checked
import WitnessSearch.Search.State

/-! Breeding. Parents are selected by their scores, where a smaller score is better, and leave two
children each time. Parents that cannot be crossed leave copies of themselves. Every child is
mutated with the configured probability, independently of its sibling. -/

namespace WitnessSearch.Search

variable {ρ τ : Type} [RandomSource ρ]

/-- The better of the best so far and a further drawn candidate, `rounds` times. -/
def tournament (scores : Array Float) : Nat → Nat → Draw ρ Nat
  | 0, best => return best
  | rounds + 1, best => do
    let contestant ← Draw.index scores.size
    let challenge ← ofExcept (Checked.fetch scores contestant)
    let bestScore ← ofExcept (Checked.fetch scores best)
    tournament scores rounds (if challenge < bestScore then contestant else best)

/-- Walks along a list whose members weigh as much as there are members from them on. The answer is
the member in whose weight the target falls. -/
def atWeight (fallback : Nat) : Nat → List Nat → Nat
  | _, [] => fallback
  | target, i :: rest =>
    if target < rest.length + 1 then i else atWeight fallback (target - (rest.length + 1)) rest

/-- The candidates in the stable order of their scores. -/
def byScore (scores : Array Float) : Except Fault (List Nat) :=
  sortByKey (· < ·) (fun i => scores.getD i 0.0) (List.range scores.size)

def selectIndex (method : SelectionMethod) (scores : Array Float) : Draw ρ Nat :=
  match method with
  | .tournament size => do
    let first ← Draw.index scores.size
    tournament scores (size - 1) first
  | .rankBased => do
    let order ← ofExcept (byScore scores)
    let weights ← ofExcept (Checked.mulCounts scores.size (scores.size + 1))
    let target ← Draw.index (weights / 2)
    return atWeight (order.headD 0) target order
  | .random => Draw.index scores.size

variable [HasCode τ] [Variation ρ τ]

def mutateChild (rate : Float) (child : Chromosome τ) : Draw ρ (Chromosome τ) := do
  if ← Draw.chance rate then child.mutate else pure child

/-- The children of two parents before mutation. A failed crossover leaves the parents as they
were, whatever the operator did to its operands. -/
def crossParents (rate : Float) (first second : Chromosome τ) :
    Draw ρ (Chromosome τ × Chromosome τ) := do
  if ← Draw.chance rate then
    let crossing ← first.crossover second
    match crossing.failure with
    | none => return (crossing.first, crossing.second)
    | some _ => return (first, second)
  else return (first, second)

def children (config : Config) (first second : Chromosome τ) :
    Draw ρ (Chromosome τ × Chromosome τ) := do
  let (a, b) ← crossParents config.crossoverRate first second
  let a ← mutateChild config.mutationRate a
  let b ← mutateChild config.mutationRate b
  return (a, b)

/-- Two children of two parents, with the rates of the search. -/
def reproduce (first second : Chromosome τ) : SearchM ρ τ (Chromosome τ × Chromosome τ) := do
  let config := (← get).config
  drawing (children config first second)

/-- The mean of a row. It is added up from the left, beginning with a negative zero, and is zero
for an empty row. -/
def meanFitness (row : List Float) : Float :=
  if row.isEmpty then 0.0 else row.foldl (· + ·) (-0.0) / Float.ofNat row.length

def litter (parents : Array (Chromosome τ)) (scores : Array Float) :
    SearchM ρ τ (List (Chromosome τ)) := do
  let method := (← get).config.selection
  let first ← drawing (selectIndex method scores)
  let second ← drawing (selectIndex method scores)
  let first ← ofExcept (Checked.fetch parents first)
  let second ← ofExcept (Checked.fetch parents second)
  let (a, b) ← reproduce first second
  return [a, b]

/-- As many offspring as there are parents. Parents are scored by their mean fitness on the open
goals. -/
def breed (problem : Problem ρ τ) (parents : List (Chromosome τ)) :
    SearchM ρ τ (List (Chromosome τ)) := do
  if parents.isEmpty then return []
  let goals := (← get).remaining
  let matrix ← evaluating (Evaluator.fitnessMatrix problem.executor parents goals)
  let scores := (matrix.map meanFitness).toArray
  let litters ← (List.replicate ((parents.length + 1) / 2) ()).mapM
    fun _ => litter parents.toArray scores
  return litters.flatten.take parents.length

end WitnessSearch.Search
