import WitnessSearch.Evaluator

/-! The order in which the candidates that meet a goal are offered to the archive. The candidate
with the largest internal diversity comes first. When none of those left has a positive one, the
candidate farthest from the centroid of those left is next. Ties go to the earliest candidate. -/

namespace WitnessSearch.Diversity

variable {τ : Type}

/-- A candidate as far as the order is concerned. -/
structure Entry where
  /-- The place of the candidate in the list that is ordered. -/
  index : Nat
  observation : Observation
  /-- The internal diversity of the observation. -/
  diversity : Float

def distancesFrom (centre : Observation) (pool : List Entry) : Except Fault (List Float) :=
  pool.mapM fun entry => entry.observation.distance centre

/-- The position of the first largest number, given the best so far. -/
def firstLargest : Nat → Nat × Float → List Float → Nat
  | _, best, [] => best.1
  | position, best, number :: rest =>
    firstLargest (position + 1) (if best.2 < number then (position, number) else best) rest

/-- The largest of a first number and further ones. -/
def largest (first : Float) (rest : List Float) : Float :=
  rest.foldl (fun best number => if best < number then number else best) first

/-- The position of the candidate to take next from a pool with `first` at its head. -/
def nextPosition (first : Entry) (rest : List Entry) : Except Fault Nat := do
  let diversities := rest.map (·.diversity)
  if 0.0 < largest first.diversity diversities then
    return firstLargest 1 (0, first.diversity) diversities
  let pool := first :: rest
  match ← Observation.centroid (pool.map (·.observation)) with
  | none => return 0
  | some centre =>
    let distances ← distancesFrom centre pool
    return firstLargest 0 (0, -1.0 / 0.0) distances

/-- Takes candidates from the pool until it is empty. The fuel is the size of the pool. -/
def induct : Nat → List Entry → Except Fault (List Nat)
  | 0, _ => .ok []
  | _ + 1, [] => .ok []
  | fuel + 1, first :: rest => do
    let position ← nextPosition first rest
    let pool := first :: rest
    match pool[position]? with
    | none => throw (.indexOutOfBounds pool.length position)
    | some entry => return entry.index :: (← induct fuel (pool.eraseIdx position))

/-- The observations of candidates bound to a goal. A missing observation counts as empty. -/
def observations (goal : Goal) (candidates : List (Evaluated τ)) :
    Except Fault (List Observation) :=
  candidates.mapM fun candidate =>
    if candidate.goal = goal then .ok (candidate.execution.observation.getD .empty)
    else .error (.foreignCandidate candidate.goal goal)

def entries (observations : List Observation) : List Entry :=
  observations.mapIdx fun index observation => ⟨index, observation, observation.internalDiversity⟩

def rank (goal : Goal) (candidates : List (Evaluated τ)) : Except Fault (List Nat) := do
  let pool := entries (← observations goal candidates)
  induct pool.length pool

/-- The place of the candidate that comes first. There has to be one. -/
def selectBest (goal : Goal) (candidates : List (Evaluated τ)) : Except Fault Nat := do
  if candidates.isEmpty then throw (.noCandidates goal)
  match entries (← observations goal candidates) with
  | [] => throw (.noCandidates goal)
  | first :: rest => nextPosition first rest

variable [HasCode τ]

/-- Evaluates the candidates that are bound to another goal and keeps those that meet this one. -/
def refresh (executor : Executor τ) (goal : Goal) (candidates : List (Evaluated τ)) :
    Evaluation (List (Evaluated τ)) := do
  let bound ← candidates.mapM fun candidate =>
    if candidate.goal = goal then pure candidate
    else Evaluator.evaluate executor candidate.chromosome goal
  return bound.filter (·.isCovered)

end WitnessSearch.Diversity
