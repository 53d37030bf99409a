import WitnessSearch.Number.Checked
import WitnessSearch.Ranking.Dominance
import WitnessSearch.Ranking.Sorting

/-! Sorting into fronts. The first front holds the rows no row dominates, and each further front
those that only rows of earlier fronts dominate. The sort counts for every row the dominators that
are not yet in a front. Putting a row into a front takes one off the count of each row it dominates,
and the rows whose count reaches zero form the next front. -/

namespace WitnessSearch.Fronts

abbrev Rows := Array (List Float)

def dominatedBy (rows : Rows) (a : Nat) : List Nat :=
  (List.range rows.size).filter fun b => dominates (rows.getD a []) (rows.getD b [])

def dominatorCount (rows : Rows) (b : Nat) : Nat :=
  (List.range rows.size).countP fun a => dominates (rows.getD a []) (rows.getD b [])

/-- The dominators still outside the fronts, by position, and the positions that ran out of them in
this round. -/
structure Counts where
  outstanding : Array Nat
  freed : List Nat

def release (counts : Counts) (b : Nat) : Except Fault Counts := do
  let count ← Checked.subCounts (counts.outstanding.getD b 0) 1
  return {
    outstanding := counts.outstanding.setIfInBounds b count
    freed := if count = 0 then b :: counts.freed else counts.freed }

/-- Takes the members of a front off the counts of what they dominate. -/
def releaseFront (dominated : Array (List Nat)) (outstanding : Array Nat) (front : List Nat) :
    Except Fault Counts :=
  front.foldlM (fun counts a => (dominated.getD a []).foldlM release counts) ⟨outstanding, []⟩

/-- The fronts from a first one on. The fuel is the number of rows, since every front holds one. -/
def rounds (dominated : Array (List Nat)) :
    Nat → Array Nat → List Nat → Except Fault (List (List Nat))
  | 0, _, _ => .ok []
  | _ + 1, _, [] => .ok []
  | fuel + 1, outstanding, front => do
    let counts ← releaseFront dominated outstanding front
    let later ← rounds dominated fuel counts.outstanding (counts.freed.mergeSort (· ≤ ·))
    return front :: later

def ofRows (rows : Rows) : Except Fault (List (List Nat)) :=
  let positions := List.range rows.size
  let dominated := (positions.map (dominatedBy rows)).toArray
  let outstanding := (positions.map (dominatorCount rows)).toArray
  rounds dominated rows.size outstanding (positions.filter fun a => outstanding.getD a 0 = 0)

/-- The fronts of the rows of a pool, as members of the pool. -/
def ofPool (rows : Rows) (pool : List Nat) : Except Fault (List (List Nat)) := do
  let fronts ← ofRows (pool.map fun i => rows.getD i []).toArray
  return fronts.map fun front => front.map fun a => pool.getD a 0

/-- The first position of a least number, given the best so far. -/
def firstLeast : Nat → Nat × Float → List Float → Nat
  | _, best, [] => best.1
  | position, best, number :: rest =>
    firstLeast (position + 1) (if number < best.2 then (position, number) else best) rest

def column (rows : Rows) (objective : Nat) : List Float :=
  rows.toList.map fun row => row.getD objective 0.0

def bestFor (rows : Rows) (objective : Nat) : Nat :=
  match column rows objective with
  | [] => 0
  | first :: rest => firstLeast 1 (0, first) rest

/-- The first best rows of all objectives, ascending and each once. -/
def preferred (rows : Rows) (objectives : Nat) : List Nat :=
  let best := (List.range objectives).map (bestFor rows)
  (List.range rows.size).filter fun i => i ∈ best

end WitnessSearch.Fronts
