import WitnessSearch.Diversity
import WitnessSearch.InputVector.Basic
import WitnessSearch.Proofs.Effects

/-! Sessions with an evaluator. A session begins with an empty memo, and then the evaluator is asked
in any order for single candidates, batches, fitness matrices and refreshed candidates. An evaluated
candidate cannot be made up: those that are to be refreshed were handed out earlier in the session.
-/

namespace WitnessSearch.Evaluator

/-- What an evaluator can be asked for. -/
inductive Request (τ : Type) where
  | evaluate (chromosome : Chromosome τ) (goal : Goal)
  | batch (chromosomes : List (Chromosome τ)) (goals : List Goal)
  | matrix (chromosomes : List (Chromosome τ)) (goals : List Goal)
  | refresh (goal : Goal) (candidates : List (Evaluated τ))

/-- What comes back, in the form that each request has its answer in. -/
inductive Answer (τ : Type) where
  | candidate (candidate : Evaluated τ)
  | rows (rows : List (List (Evaluated τ)))
  | fitness (rows : List (List Float))
  | covering (candidates : List (Evaluated τ))

variable {τ : Type}

def Answer.issued : Answer τ → List (Evaluated τ)
  | .candidate one => [one]
  | .rows table => table.flatten
  | .fitness _ => []
  | .covering kept => kept

namespace Request

def presented : Request τ → List (Evaluated τ)
  | refresh _ candidates => candidates
  | _ => []

variable [HasCode τ]

def perform (executor : Executor τ) : Request τ → Evaluation (Answer τ)
  | evaluate chromosome goal => do
    return .candidate (← Evaluator.evaluate executor chromosome goal)
  | batch chromosomes goals => do return .rows (← evaluateBatch executor chromosomes goals)
  | matrix chromosomes goals => do return .fitness (← fitnessMatrix executor chromosomes goals)
  | refresh goal candidates => do
    return .covering (← Diversity.refresh executor goal candidates)

end Request

/-- A request with the memo it met and the answer it got. -/
structure Exchange (τ : Type) where
  memo : Memo
  request : Request τ
  answer : Answer τ

def issued (exchanges : List (Exchange τ)) : List (Evaluated τ) :=
  exchanges.flatMap fun exchange => exchange.answer.issued

/-- The exchanges of a session up to some point, and the evaluator they left. Each request goes to
one of the given executors. An executor whose answers change as time goes by counts as several, so
that with all executors given there is no condition on what is answered. -/
inductive Session [HasCode τ] (executors : Executor τ → Prop) :
    List (Exchange τ) → Evaluator → Prop where
  | opened : Session executors [] .empty
  | asked {exchanges : List (Exchange τ)} {evaluator next : Evaluator} {executor : Executor τ}
      {request : Request τ} {answer : Answer τ} (prior : Session executors exchanges evaluator)
      (hExecutor : executors executor) (hPresented : request.presented ⊆ issued exchanges)
      (last : request.perform executor evaluator = .ok answer next) :
      Session executors (exchanges ++ [⟨evaluator.memo, request, answer⟩]) next

section Samples

def sampleCall : Chromosome InputVector :=
  .single ⟨"f", [], 0, 9⟩

def sampleGoal (line : UInt32) : Goal :=
  .located "g" "unit" "f" line

end Samples

end WitnessSearch.Evaluator
