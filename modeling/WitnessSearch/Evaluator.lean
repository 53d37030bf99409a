import WitnessSearch.Memo

/-! Evaluation of candidates through the memo. An evaluator runs a candidate against a goal only if
the memo has no entry for the pair, and stores what comes out. Candidates with one fingerprint count
as one candidate: within a batch the first of them is run for all. Beside the memo the evaluator
keeps a count of the runs and the list of the pairs it handed to the executor. -/

namespace WitnessSearch

structure Evaluator where
  memo : Memo
  /-- The number of runs. -/
  executions : Nat
  /-- The pairs that were handed to the executor, the latest first. -/
  calls : List (Fingerprint × Goal)
deriving Inhabited

/-- A computation with an evaluator that may end in a fault. The evaluator is kept in either
case. -/
abbrev Evaluation := EStateM Fault Evaluator

namespace Evaluator

def empty : Evaluator :=
  ⟨.empty, 0, []⟩

variable {τ : Type} [HasCode τ]

def consult (fingerprint : Fingerprint) (goal : Goal) : Evaluation (Option Execution) :=
  modifyGet fun evaluator =>
    let (found, memo) := evaluator.memo.lookup fingerprint goal
    (found, { evaluator with memo })

def remember (fingerprint : Fingerprint) (goal : Goal) (execution : Execution) : Evaluation Unit :=
  modify fun evaluator =>
    { evaluator with memo := evaluator.memo.insert fingerprint goal execution }

/-- Hands a pair to the executor. A candidate that could not be run gets the worst fitness. -/
def run (executor : Executor τ) (chromosome : Chromosome τ) (goal : Goal) :
    Evaluation Execution := do
  modify fun evaluator =>
    { evaluator with
      executions := evaluator.executions + 1
      calls := (chromosome.fingerprint, goal) :: evaluator.calls }
  match ← ofExcept (executor.execute chromosome goal) with
  | .ok execution => return execution
  | .error _ => return .failed

def evaluate (executor : Executor τ) (chromosome : Chromosome τ) (goal : Goal) :
    Evaluation (Evaluated τ) := do
  let fingerprint := chromosome.fingerprint
  match ← consult fingerprint goal with
  | some execution => return ⟨chromosome, fingerprint, goal, execution⟩
  | none =>
    let execution ← run executor chromosome goal
    remember fingerprint goal execution
    return ⟨chromosome, fingerprint, goal, execution⟩

abbrev Named (τ : Type) := Fingerprint × Chromosome τ

/-- The members whose fingerprint is neither in `seen` nor that of an earlier member. -/
def firsts (seen : List Fingerprint) : List (Named τ) → List (Named τ)
  | [] => []
  | (fingerprint, chromosome) :: rest =>
    if fingerprint ∈ seen then firsts seen rest
    else (fingerprint, chromosome) :: firsts (fingerprint :: seen) rest

/-- Where the execution of a pair of a batch comes from. -/
inductive Origin where
  /-- It was in the memo. -/
  | recalled (execution : Execution)
  /-- It has to be run. -/
  | pending

def plan (candidates : List (Named τ)) (goal : Goal) :
    Evaluation (List (Named τ × Origin)) :=
  candidates.mapM fun (fingerprint, chromosome) => do
    match ← consult fingerprint goal with
    | some execution => return ((fingerprint, chromosome), .recalled execution)
    | none => return ((fingerprint, chromosome), .pending)

/-- An execution of a batch, and whether it was run for this batch. -/
structure Settled where
  fingerprint : Fingerprint
  execution : Execution
  fresh : Bool

def settle (executor : Executor τ) (goal : Goal) (row : List (Named τ × Origin)) :
    Evaluation (List Settled) :=
  row.mapM fun ((fingerprint, chromosome), origin) => do
    match origin with
    | .recalled execution => return ⟨fingerprint, execution, false⟩
    | .pending => return ⟨fingerprint, ← run executor chromosome goal, true⟩

def rememberRow (goal : Goal) (row : List Settled) : Evaluation Unit :=
  row.forM fun settled =>
    if settled.fresh then remember settled.fingerprint goal settled.execution else pure ()

/-- The execution of a fingerprint in a settled row. Every member of the batch has one; the worst
fitness stands in for what is missing. -/
def find (row : List Settled) (fingerprint : Fingerprint) : Execution :=
  match row.find? (·.fingerprint = fingerprint) with
  | some settled => settled.execution
  | none => .failed

/-- The executions of all candidates for all goals, one row for each goal. First all pairs are
looked up, then the missing ones are run, and then what was run is stored. -/
def resolve (executor : Executor τ) (candidates : List (Named τ)) (goals : List Goal) :
    Evaluation (List (List Execution)) := do
  let distinct := firsts [] candidates
  let planned ← goals.mapM fun goal => do return (goal, ← plan distinct goal)
  let settled ← planned.mapM fun (goal, row) => do return (goal, ← settle executor goal row)
  settled.forM fun (goal, row) => rememberRow goal row
  return settled.map fun (_, row) => candidates.map fun (fingerprint, _) => find row fingerprint

def named (chromosomes : List (Chromosome τ)) : List (Named τ) :=
  chromosomes.map fun chromosome => (chromosome.fingerprint, chromosome)

/-- Evaluates every candidate against every goal. There is one row for each goal, in the order of
the goals, with the candidates in their order. -/
def evaluateBatch (executor : Executor τ) (chromosomes : List (Chromosome τ))
    (goals : List Goal) : Evaluation (List (List (Evaluated τ))) := do
  let candidates := named chromosomes
  let rows ← resolve executor candidates goals
  return List.zipWith
    (fun goal row => List.zipWith
      (fun (fingerprint, chromosome) execution => ⟨chromosome, fingerprint, goal, execution⟩)
      candidates row)
    goals rows

/-- Exchanges rows and columns. There are as many rows in the result as `width` says, which is the
length of the given rows. -/
def transpose {α : Type} (width : Nat) (rows : List (List α)) : List (List α) :=
  rows.foldr (List.zipWith (· :: ·)) (List.replicate width [])

/-- The fitness of every candidate on every goal, one row for each candidate. -/
def fitnessMatrix (executor : Executor τ) (chromosomes : List (Chromosome τ))
    (goals : List Goal) : Evaluation (List (List Float)) := do
  let rows ← resolve executor (named chromosomes) goals
  return transpose chromosomes.length (rows.map fun row => row.map (·.fitness))

end Evaluator

end WitnessSearch
