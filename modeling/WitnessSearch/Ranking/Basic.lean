import WitnessSearch.Ranking.Crowding

/-! The ranking of the candidates that miss their goals. Candidates are described by their fitness
on each objective and sorted into fronts; within a front they stand in the order of falling crowding
distance. Survivors are taken front by front, and candidates can be pushed back by whole fronts. -/

namespace WitnessSearch

structure Ranking where
  /-- The candidates front by front, each front in the order of falling crowding distance. -/
  fronts : List (List Nat)
  /-- The crowding distance of each candidate. -/
  crowding : Crowding.Distances

namespace Ranking

def finish (rows : Fronts.Rows) (objectives : Nat)
    (state : Crowding.Distances × List (List Nat)) (front : List Nat) :
    Except Fault (Crowding.Distances × List (List Nat)) := do
  let distances ← Crowding.assign rows objectives state.1 front
  return (distances, state.2 ++ [← Crowding.ordered distances front])

/-- Ranks candidates by their rows, which have to agree in length. With preference, the first best
candidates of the objectives form a front of their own ahead of the others. Without objectives all
candidates share one front. -/
def ofRows (preference : Bool) (rows : List (List Float)) : Except Fault Ranking := do
  let some first := rows.head? | return ⟨[], #[]⟩
  let objectives := first.length
  if rows.any (·.length ≠ objectives) then throw .unequalRows
  let n := rows.length
  if objectives = 0 then
    return ⟨[List.range n], Array.replicate n Crowding.infinite⟩
  let rows := rows.toArray
  let preferred := if preference then [Fronts.preferred rows objectives] else []
  let pool := (List.range n).filter fun i => i ∉ preferred.flatten
  let others ← Fronts.ofPool rows pool
  let (crowding, fronts) ←
    (preferred ++ others).foldlM (finish rows objectives) (Array.replicate n 0.0, [])
  return ⟨fronts, crowding⟩

/-- The members of a front, or none if there is no such front. -/
def front (ranking : Ranking) (rank : Nat) : List Nat :=
  ranking.fronts.getD rank []

def frontCount (ranking : Ranking) : Nat :=
  ranking.fronts.length

def crowdingDistance (ranking : Ranking) (candidate : Nat) : Except Fault Float :=
  match ranking.crowding[candidate]? with
  | some distance => .ok distance
  | none => .error (.indexOutOfBounds ranking.crowding.size candidate)

def order (ranking : Ranking) : List Nat :=
  ranking.fronts.flatten

/-- A candidate that is pushed back: the front it goes to, and the front and the position in it that
it comes from. -/
structure Placed where
  target : Nat
  rank : Nat
  position : Nat
  candidate : Nat

/-- Candidates are lined up by where they go and then by where they come from. -/
def Placed.order (a b : Placed) : Ordering :=
  (compare a.target b.target).then
    ((compare a.rank b.rank).then
      ((compare a.position b.position).then (compare a.candidate b.candidate)))

/-- Pushes the members of one front back by their penalties. A missing penalty counts as zero. -/
def placeFront (penalties : List Nat) (rank : Nat) (front : List Nat) :
    Except Fault (List Placed) :=
  front.zipIdx.mapM fun (candidate, position) => do
    let target ← Checked.addCounts rank (penalties.getD candidate 0)
    return ⟨target, rank, position, candidate⟩

/-- The fronts after every candidate was pushed back by as many fronts as its penalty says. Within
a new front the candidates from earlier fronts come first, those of one front in their order. Fronts
without members vanish. -/
def regroup (ranking : Ranking) (penalties : List Nat) : Except Fault (List (List Nat)) := do
  let placed ← ranking.fronts.zipIdx.mapM fun (front, rank) => placeFront penalties rank front
  let sorted := placed.flatten.mergeSort fun a b => (a.order b).isLE
  return (sorted.splitBy fun a b => a.target == b.target).map fun front => front.map (·.candidate)

/-- Pushes every candidate back by as many fronts as its penalty says. The distances stay. -/
def demote (ranking : Ranking) (penalties : List Nat) : Except Fault Ranking := do
  if penalties.all (· = 0) then return ranking
  return { ranking with fronts := ← ranking.regroup penalties }

/-- Takes whole fronts while there is room and cuts the first that does not fit. The candidates
taken so far are handed on. -/
def takeFronts (count : Nat) : List Nat → List (List Nat) → Except Fault (List Nat)
  | selected, [] => return selected
  | selected, front :: rest => do
    let room ← Checked.subCounts count selected.length
    if room = 0 then return selected
    else if front.length ≤ room then takeFronts count (selected ++ front) rest
    else return selected ++ front.take room

/-- The first `count` candidates to survive. There has to be room for so many. -/
def select (ranking : Ranking) (count : Nat) : Except Fault (List Nat) := do
  Checked.reserve Checked.wordBytes count
  takeFronts count [] ranking.fronts

end Ranking

end WitnessSearch
