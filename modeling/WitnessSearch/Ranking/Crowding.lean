import WitnessSearch.Ranking.Fronts

/-! Crowding distances. Within a front the members are lined up by each objective in turn. The two
ends of a line get an infinite distance. A member in between gets the gap between its neighbours,
divided by the length of the line, added for each objective. Ties in a line keep the order of the
line before, so the lines are made one from the other. -/

namespace WitnessSearch.Crowding

open Fronts

abbrev Distances := Array Float

def infinite : Float := 1.0 / 0.0

def value (rows : Rows) (objective candidate : Nat) : Float :=
  (rows.getD candidate []).getD objective 0.0

def addGaps (value : Nat → Float) (range : Float) : List Nat → Distances → Distances
  | left :: middle :: right :: rest, distances =>
    addGaps value range (middle :: right :: rest)
      (distances.modify middle (· + (value right - value left) / range))
  | _, distances => distances

/-- Lines a front up by one objective and adds the gaps of that line. -/
def spread (rows : Rows) (state : List Nat × Distances) (objective : Nat) :
    Except Fault (List Nat × Distances) := do
  let value := value rows objective
  let line ← sortByKey (· < ·) value state.1
  match line.head?, line.getLast? with
  | some first, some last =>
    let ended := (state.2.setIfInBounds first infinite).setIfInBounds last infinite
    let range := value last - value first
    return (line, if 0.0 < range then addGaps value range line ended else ended)
  | _, _ => return (line, state.2)

/-- Sets the distances of the members of a front. A front of at most two members has only ends. -/
def assign (rows : Rows) (objectives : Nat) (distances : Distances) (front : List Nat) :
    Except Fault Distances := do
  if front.length ≤ 2 then
    return front.foldl (fun distances i => distances.setIfInBounds i infinite) distances
  else
    let cleared := front.foldl (fun distances i => distances.setIfInBounds i 0.0) distances
    return (← (List.range objectives).foldlM (spread rows) (front, cleared)).2

/-- Orders a front by falling distance. Equal distances keep their order. -/
def ordered (distances : Distances) (front : List Nat) : Except Fault (List Nat) :=
  sortByKey (fun a b => b < a) (fun i => distances.getD i 0.0) front

end WitnessSearch.Crowding
