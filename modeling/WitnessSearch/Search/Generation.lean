import WitnessSearch.Diversity
import WitnessSearch.Ranking.Basic
import WitnessSearch.Search.Fresh
import WitnessSearch.Search.Parents

/-! One generation of the search. A pass evaluates candidates against the open goals and offers
those that meet a goal to the archive, in the order of diversity. What the archive turns down is
mutated and used again, and what was not offered is used again as it is. The others are ranked, and
the best of them and fresh candidates fill the population up. -/

namespace WitnessSearch.Search

variable {ρ τ : Type} [RandomSource ρ] [HasCode τ] [Variation ρ τ]

/-- What became of the candidates that meet one goal. -/
structure Induction (τ : Type) where
  /-- The candidates to use again. -/
  recycled : List (Chromosome τ)
  /-- The number of accepted witnesses. -/
  accepted : Nat

/-- How many of `count` candidates are offered: the given share, rounded up, but at least one. -/
def attempts (fraction : Float) (count : Nat) : Except Fault Nat :=
  Checked.clampCount 1 count (Float.ofNat count * fraction).ceil.toUInt64.toNat

/-- Offers a candidate to the archive. What comes back is nothing if it was accepted, and the
mutated candidate if it was rejected. -/
def offer (goal : Goal) (candidate : Evaluated τ) : SearchM ρ τ (Option (Chromosome τ)) := do
  let search ← get
  let (admission, archive) := search.archive.offer goal candidate.chromosome
    candidate.execution.observation search.generation
  set { search with archive }
  match admission with
  | .accepted _ => return none
  | .rejected _ => return some (← drawing candidate.chromosome.mutate)

/-- Offers candidates that meet a goal, given in the order of diversity. -/
def offerInOrder (goal : Goal) (candidates : List (Evaluated τ)) : SearchM ρ τ (Induction τ) := do
  let count ← ofExcept (attempts (← get).config.archiveFraction candidates.length)
  let answers ← (candidates.take count).mapM (offer goal)
  return {
    recycled := answers.filterMap id ++ (candidates.drop count).map (·.chromosome)
    accepted := answers.countP Option.isNone }

/-- Deals with the candidates of one evaluated row that meet its goal. -/
def induct (problem : Problem ρ τ) (goal : Goal) (row : List (Evaluated τ)) :
    SearchM ρ τ (Induction τ) := do
  let covering ← evaluating (Diversity.refresh problem.executor goal row)
  if covering.isEmpty then return ⟨[], 0⟩
  let order ← ofExcept (Diversity.rank goal covering)
  let candidates ← order.mapM fun i => ofExcept (Checked.fetch covering.toArray i)
  offerInOrder goal candidates

def updateRemaining : SearchM ρ τ Unit :=
  modify fun search =>
    { search with remaining := search.remaining.filter fun goal => !search.archive.isCovered goal }

/-- A candidate that meets no goal, with its fitness on the goals that are still open. -/
structure Contender (τ : Type) where
  chromosome : Chromosome τ
  fitness : List Float

/-- The entries of a row that belong to the goals still open. -/
def openEntries (goals remaining : List Goal) (row : List Float) : List Float :=
  (goals.zip row).filterMap fun (goal, fitness) => if goal ∈ remaining then some fitness else none

def contenders (goals remaining : List Goal) (candidates : List (Chromosome τ))
    (fitness : List (List Float)) : List (Contender τ) :=
  (candidates.zip fitness).filterMap fun (chromosome, row) =>
    if row.any (· == 0.0) then none else some ⟨chromosome, openEntries goals remaining row⟩

/-- Ranks the contenders. Those that are witnesses already are pushed back if that is asked for. -/
def rankContenders (config : RankingConfig) (archive : Archive τ) (pool : List (Contender τ)) :
    Except Fault Ranking := do
  let ranking ← Ranking.ofRows config.preferenceSorting (pool.map (·.fitness))
  if config.demoteArchived then
    ranking.demote (pool.map fun contender =>
      archive.appearanceCount contender.chromosome.fingerprint)
  else return ranking

/-- A population in the making. -/
structure Roster (τ : Type) where
  members : List (Chromosome τ)
  /-- The fingerprints of the members. -/
  taken : List Fingerprint

namespace Roster

/-- Adds a candidate unless the population is complete or has its fingerprint. -/
def add (size : Nat) (roster : Roster τ) (chromosome : Chromosome τ) : Roster τ :=
  let fingerprint := chromosome.fingerprint
  if size ≤ roster.members.length ∨ fingerprint ∈ roster.taken then roster
  else ⟨roster.members ++ [chromosome], fingerprint :: roster.taken⟩

end Roster

/-- The survivors of a pass: the candidates to use again and then the best ranked contenders. There
has to be room for a whole population. -/
def survivors (size : Nat) (recycled : List (Chromosome τ)) (pool : List (Contender τ))
    (ranking : Ranking) : Except Fault (List (Chromosome τ)) := do
  Checked.reserve candidateBytes size
  let roster := recycled.foldl (Roster.add size) ⟨[], []⟩
  let room ← Checked.subCounts size roster.members.length
  let ranked ← (← ranking.select room).mapM (Checked.fetch pool.toArray)
  return ((ranked.map (·.chromosome)).foldl (Roster.add size) roster).members

def topUp (problem : Problem ρ τ) (size : Nat) (members : List (Chromosome τ)) :
    SearchM ρ τ (List (Chromosome τ)) := do
  if members.length < size ∧ ¬(← get).remaining.isEmpty then
    return members ++ (← freshCandidates problem (size - members.length))
  else return members

def recordPass (accepted : Nat) : SearchM ρ τ Unit :=
  modify fun search =>
    { search with history := {
        remainingGoals := search.history.remainingGoals ++ [search.remaining.length]
        archiveSize := search.history.archiveSize ++ [search.archive.size]
        cacheEntries := search.history.cacheEntries ++ [search.evaluator.memo.size]
        accepted := search.history.accepted ++ [accepted] } }

/-- The next population, once the goals have been dealt with: what is used again, the best ranked of
those that met no goal, and fresh candidates. -/
def nextPopulation (problem : Problem ρ τ) (config : Config) (goals : List Goal)
    (candidates : List (Chromosome τ)) (rows : List (List (Evaluated τ)))
    (inductions : List (Induction τ)) : SearchM ρ τ (List (Chromosome τ)) := do
  updateRemaining
  let search ← get
  let fitness := Evaluator.transpose candidates.length (rows.map fun row => row.map (·.fitness))
  let pool := contenders goals search.remaining candidates fitness
  let size := config.population.size
  let ranking ← ofExcept (rankContenders config.ranking search.archive pool)
  let kept ← ofExcept (survivors size (inductions.flatMap (·.recycled)) pool ranking)
  let next ← topUp problem size kept
  recordPass (inductions.foldl (fun total induction => total + induction.accepted) 0)
  return next

/-- Evaluates candidates and yields the next population. Without open goals the candidates are only
cut to the size of the population. -/
def pass (problem : Problem ρ τ) (candidates : List (Chromosome τ)) :
    SearchM ρ τ (List (Chromosome τ)) := do
  let search ← get
  let goals := search.remaining
  if goals.isEmpty then return candidates.take search.config.population.size
  let rows ← evaluating (Evaluator.evaluateBatch problem.executor candidates goals)
  let inductions ← (goals.zip rows).mapM fun (goal, row) => induct problem goal row
  nextPopulation problem search.config goals candidates rows inductions

/-- Builds the first population and evaluates it. What the archive, the memo and the history hold
stays. -/
def start (problem : Problem ρ τ) : SearchM ρ τ Unit := do
  modify fun search => { search with generation := 0 }
  let search ← get
  let initial ← if search.remaining.isEmpty then pure []
    else freshCandidates problem search.config.population.size
  modify fun search => { search with phase := .evaluating }
  let population ← pass problem initial
  modify fun search => { search with population }

/-- Breeds offspring and evaluates it together with its parents. -/
def step (problem : Problem ρ τ) : SearchM ρ τ Unit := do
  let parents := (← get).population
  modify fun search => { search with phase := .evolving, population := [] }
  let offspring ← breed problem parents
  modify fun search => { search with phase := .evaluating }
  let population ← pass problem (parents ++ offspring)
  modify fun search => { search with population, generation := search.generation + 1 }

end WitnessSearch.Search
