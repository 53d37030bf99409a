import WitnessSearch.Execution
import WitnessSearch.Subject.Catalogue

/-! Execution of argument vectors on a subject. A run meets a goal when it reaches the goal's
capture point, and the values of the first capture become the observation. A run that misses the
point gets a fitness between one and two that grows with the least recorded distance, and two if
there is none. -/

namespace WitnessSearch.Subject

/-- The fitness of a run that recorded no distance. -/
def unguidedFitness : Float := 2.0

/-- The fitness of a run that misses a point by a distance. -/
def missFitness : Option Float → Float
  | some distance => 1.0 + distance / (distance + 1.0)
  | none => unguidedFitness

def measure (trace : Trace) (goal : Goal) : Except Fault Execution :=
  match trace.firstCapture goal.id with
  | some values => .ok (.covered (some (.ofInts values)))
  | none => Execution.uncovered (missFitness (trace.bestDistance goal.id))

/-- Runs a test of a candidate. The number of its arguments has to be the arity. -/
def runTest (subject : Subject) (test : InputVector) :
    Except Fault (Except ExecutionFailure Trace) :=
  if test.args.length = subject.arity then do
    return .ok (← subject.run test.args)
  else
    .ok (.error (.failed (subject.function ++ " takes " ++ subject.arity.repr ++
      " arguments, got " ++ test.args.length.repr)))

/-- Runs tests until one meets the goal or cannot be run, given the best execution so far. -/
def executeTests (subject : Subject) (goal : Goal) :
    Option Execution → List InputVector → Except Fault (Except ExecutionFailure Execution)
  | best, [] => do
    match best with
    | some execution => return .ok execution
    | none => return .ok (← Execution.uncovered unguidedFitness)
  | best, test :: rest => do
    match ← subject.runTest test with
    | .error failure => return .error failure
    | .ok trace =>
      let execution ← measure trace goal
      if execution.isCovered then return .ok execution
      let better := match best with
        | none => true
        | some best => execution.fitness < best.fitness
      executeTests subject goal (if better then some execution else best) rest

def executor (subject : Subject) : Executor InputVector where
  execute chromosome goal := executeTests subject goal none chromosome.tests

end WitnessSearch.Subject
