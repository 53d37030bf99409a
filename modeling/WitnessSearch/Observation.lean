import WitnessSearch.Fault
import WitnessSearch.Number.Decimal

/-! Observations: the values a run saw at a capture point. Two measures are taken of them. The
internal diversity of one observation is the mean distance between two of its components; the
distance of two observations is the Euclidean one. The order in which terms are added is fixed,
since a sum of doubles depends on it. -/

namespace WitnessSearch

structure Observation where
  values : List Float
deriving Inhabited

namespace Observation

/-- Two observations are equal when they have as many components and each equals its partner as a
number. An observation with a component that is not a number equals none, not even itself. -/
instance : BEq Observation := ⟨fun a b => a.values == b.values⟩

def empty : Observation := ⟨[]⟩

def ofInts (values : List Int64) : Observation :=
  ⟨values.map fun value => .ofInt value.toInt⟩

def arity (observation : Observation) : Nat :=
  observation.values.length

/-- Adds the distances between each component and the later ones, row by row. -/
def pairwiseDistances : Float → List Float → Float
  | sum, [] => sum
  | sum, value :: later =>
    pairwiseDistances (later.foldl (fun sum other => sum + (value - other).abs) sum) later

/-- The mean distance between two components. It is zero when there are not two. -/
def internalDiversity (observation : Observation) : Float :=
  let n := observation.arity
  if n < 2 then 0.0
  else pairwiseDistances 0.0 observation.values / Float.ofNat (n * (n - 1) / 2)

/-- The Euclidean distance. The squares are added from the left to a negative zero, so that two
empty observations are a negative zero apart. -/
def distance (a b : Observation) : Except Fault Float :=
  if a.arity = b.arity then
    let squares := List.zipWith (fun x y => (x - y) * (x - y)) a.values b.values
    .ok (squares.foldl (· + ·) (-0.0)).sqrt
  else .error (.observationArity a.arity b.arity)

/-- Adds an observation to a sum of the same arity, component by component. -/
def accumulate (sum observation : Observation) : Except Fault Observation :=
  if sum.arity = observation.arity then
    .ok ⟨List.zipWith (· + ·) sum.values observation.values⟩
  else .error (.centroidArity sum.arity observation.arity)

/-- The mean of observations of one arity, or nothing for no observations. -/
def centroid : List Observation → Except Fault (Option Observation)
  | [] => .ok none
  | first :: rest => do
    let sum ← rest.foldlM accumulate first
    let count := Float.ofNat (rest.length + 1)
    return some ⟨sum.values.map (· / count)⟩

def describe (observation : Observation) : String :=
  "[" ++ String.intercalate ", " (observation.values.map plainText) ++ "]"

end Observation

end WitnessSearch
