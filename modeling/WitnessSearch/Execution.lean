import WitnessSearch.Chromosome
import WitnessSearch.Duration
import WitnessSearch.Observation

/-! Executions: what running a candidate against a goal shows. The fitness is the distance to the
goal, and zero means that the goal is met. An executor is the only place where a program under test
runs. It may answer with an execution or report that the candidate could not be run; a fault of the
executor is neither and ends the caller as well. -/

namespace WitnessSearch

structure Execution where
  /-- The distance to the goal. It is zero exactly when the goal is met. -/
  fitness : Float
  /-- What was captured, if the goal is met and captures anything. -/
  observation : Option Observation

namespace Execution

def covered (observation : Option Observation) : Execution :=
  ⟨0.0, observation⟩

def uncovered (fitness : Float) : Except Fault Execution :=
  if 0.0 < fitness then .ok ⟨fitness, none⟩ else .error .nonPositiveFitness

def worstFitness : Float := Float.ofBits 0x7fefffffffffffff

def failed : Execution :=
  ⟨worstFitness, none⟩

/-- Whether the goal is met. A negative zero counts as zero. -/
def isCovered (execution : Execution) : Bool :=
  execution.fitness == 0.0

end Execution

/-- Why a candidate could not be run. -/
inductive ExecutionFailure where
  | failed (reason : String)
  | timedOut (after : Duration)
deriving DecidableEq

def ExecutionFailure.message : ExecutionFailure → String
  | .failed reason => "Candidate could not be executed: " ++ reason
  | .timedOut after => "Execution timed out after " ++ after.describe

structure Executor (τ : Type) where
  execute : Chromosome τ → Goal → Except Fault (Except ExecutionFailure Execution)

/-- A candidate bound to the goal it was evaluated against. -/
structure Evaluated (τ : Type) where
  chromosome : Chromosome τ
  fingerprint : Fingerprint
  goal : Goal
  execution : Execution

namespace Evaluated

variable {τ : Type}

def fitness (candidate : Evaluated τ) : Float :=
  candidate.execution.fitness

def isCovered (candidate : Evaluated τ) : Bool :=
  candidate.execution.isCovered

end Evaluated

end WitnessSearch
