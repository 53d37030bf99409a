import WitnessSearch.Goal

/-! Faults: the ways an operation can be stopped by a broken precondition. A fault is not an answer
of the search. It says that a caller handed over something the operation is not defined on, or that
an exact integer result does not fit its type. Every fault is a constructor of its own. -/

namespace WitnessSearch

inductive Fault where
  /-- A sum leaves the range of its integer type. -/
  | additionOverflow
  /-- A difference leaves the range of its integer type. -/
  | subtractionOverflow
  /-- A product leaves the range of its integer type. -/
  | multiplicationOverflow
  /-- A product of sizes or counts is not a count any more. -/
  | countOverflow
  /-- A list of `length` elements was asked for the element at `index`. -/
  | indexOutOfBounds (length index : Nat)
  /-- A uniform draw was asked for from a range without values. -/
  | emptyRange
  /-- An index was drawn for a list without elements. -/
  | noElements
  /-- A chance was given by something that is not a number in the unit interval. -/
  | invalidProbability
  /-- Input bounds were given with the lower one above the upper one. -/
  | invertedInputRange
  /-- A value was to be clamped between bounds with the lower one above the upper one. -/
  | invertedBounds
  /-- The fitness rows of one ranking differ in length. -/
  | unequalRows
  /-- More than a few elements were to be sorted by keys without a common order. -/
  | unorderedKeys
  /-- Two lists that have to agree in length do not. -/
  | unequalLengths
  /-- Two observations of different arity were compared. -/
  | observationArity (left right : Nat)
  /-- Observations of different arity were averaged. -/
  | centroidArity (left right : Nat)
  /-- An archive was asked to hold no witness for each goal. -/
  | zeroTarget
  /-- A witness was to be chosen for a goal from no candidates. -/
  | noCandidates (goal : Goal)
  /-- A candidate evaluated against one goal was scored for another. -/
  | foreignCandidate (evaluated scored : Goal)
  /-- A population was to be spread over no goals. -/
  | noOpenGoals
  /-- An execution that misses its goal was given a fitness that is not positive. -/
  | nonPositiveFitness
  /-- A list was given room for more bytes than one list can take. -/
  | capacityOverflow
  /-- A rejection sampler used up its whole budget of draws. With a source of random words that
  has not run into a cycle of rejected words this does not happen. -/
  | endlessRejection
  /-- A run went on after it had been through all the generations it was given. -/
  | endlessRun
deriving DecidableEq

namespace Fault

def message : Fault → String
  | additionOverflow => "attempt to add with overflow"
  | subtractionOverflow => "attempt to subtract with overflow"
  | multiplicationOverflow => "attempt to multiply with overflow"
  | countOverflow => "attempt to multiply with overflow"
  | indexOutOfBounds length index =>
    "index out of bounds: the len is " ++ length.repr ++ " but the index is " ++ index.repr
  | emptyRange => "cannot sample empty range"
  | noElements => "assertion failed: len > 0"
  | invalidProbability =>
    "called `Result::unwrap()` on an `Err` value: InvalidProbability"
  | invertedInputRange => "assertion failed: range.0 <= range.1"
  | invertedBounds => "assertion failed: min <= max"
  | unequalRows => "assertion failed: fitness.iter().all(|row| row.len() == objectives)"
  | unorderedKeys => "user-provided comparison function does not correctly implement a total order"
  | unequalLengths => "assertion `left == right` failed"
  | observationArity left right =>
    "observation arity mismatch: " ++ left.repr ++ " vs " ++ right.repr
  | centroidArity left right =>
    "observation arity mismatch in centroid: " ++ left.repr ++ " vs " ++ right.repr
  | zeroTarget => "multicover target must be at least 1"
  | noCandidates goal => "no covering candidates for goal " ++ goal.describe
  | foreignCandidate evaluated scored =>
    "candidate evaluated against " ++ evaluated.describe ++ " scored for " ++ scored.describe
  | noOpenGoals => "cannot distribute a population over zero goals"
  | nonPositiveFitness => "uncovered execution needs positive fitness"
  | capacityOverflow => "capacity overflow"
  | endlessRejection => "rejection sampling did not end"
  | endlessRun => "the run did not end"

end Fault

end WitnessSearch
