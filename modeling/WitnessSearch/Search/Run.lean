import WitnessSearch.Search.Generation

/-! Whole runs. A run starts the search and goes on from generation to generation until it has a
reason to stop. Before each generation it is told how much time has passed and whether the request
to stop was changed. The reasons are looked at in a fixed order: the request to stop, all goals
covered, the number of generations, the time. -/

namespace WitnessSearch

inductive StopReason where
  | allGoalsCovered
  | maxGenerations
  | deadline
  | cancelled
deriving DecidableEq

/-- Where a run stands after a generation. -/
structure SearchProgress where
  generation : Nat
  maxGenerations : Nat
  totalGoals : Nat
  remainingGoals : Nat
  archiveSize : Nat
  minCoverage : Nat
  populationSize : Nat
  executions : Nat
  cache : MemoStats
  history : SearchHistory
  phase : SearchPhase

structure SearchStats where
  generations : Nat
  executions : Nat
  cache : MemoStats
  archiveSize : Nat
  minCoverage : Nat
  elapsedSeconds : Float
  stopReason : StopReason

structure SearchResult (τ : Type) where
  /-- The tests of all witnesses, each code once. -/
  suite : List τ
  coverage : List GoalCoverage
  stats : SearchStats
  history : SearchHistory

namespace SearchResult

variable {τ : Type}

def coveredGoals (result : SearchResult τ) : Nat :=
  result.coverage.countP (·.covered)

def isComplete (result : SearchResult τ) : Bool :=
  result.coverage.all (·.covered)

end SearchResult

/-- What a run learns from outside before a generation. -/
structure Signal where
  /-- The time since the start of the run. -/
  elapsed : Duration
  /-- What the request to stop was set to since the last signal, if it was set. -/
  cancel : Option Bool := none

/-- The surroundings of a run. -/
structure Watch (m : Type → Type) where
  signal : m Signal
  report : SearchProgress → m Unit

namespace Search

variable {ρ τ : Type}

/-- The first reason to stop, if there is one. -/
def stopReason (search : Search ρ τ) (elapsed : Duration) : Option StopReason :=
  if search.cancelled then some .cancelled
  else if search.remaining.isEmpty then some .allGoalsCovered
  else if search.config.population.maxGenerations ≤ search.generation then some .maxGenerations
  else
    match search.config.timeBudget with
    | some budget => if budget.nanoseconds ≤ elapsed.nanoseconds then some .deadline else none
    | none => none

def progress (search : Search ρ τ) : SearchProgress where
  generation := search.generation
  maxGenerations := search.config.population.maxGenerations
  totalGoals := search.archive.goals.length
  remainingGoals := search.remaining.length
  archiveSize := search.archive.size
  minCoverage := search.archive.minCoverage
  populationSize := search.population.length
  executions := search.evaluator.executions
  cache := search.evaluator.memo.stats
  history := search.history
  phase := search.phase

variable [HasCode τ]

/-- What a run that stopped for the given reason shows. -/
def result (search : Search ρ τ) (reason : StopReason) (elapsed : Duration) : SearchResult τ where
  suite := search.archive.suite
  coverage := search.archive.coverage
  stats := {
    generations := search.generation
    executions := search.evaluator.executions
    cache := search.evaluator.memo.stats
    archiveSize := search.archive.size
    minCoverage := search.archive.minCoverage
    elapsedSeconds := elapsed.toSeconds
    stopReason := reason }
  history := search.history

def heed (search : Search ρ τ) (signal : Signal) : Search ρ τ :=
  { search with cancelled := signal.cancel.getD search.cancelled }

/-- How a run ends: with a result and the search it leaves, or with a fault. -/
abbrev Outcome (ρ τ : Type) := EStateM.Result Fault (Search ρ τ) (SearchResult τ)

def finish (search : Search ρ τ) (reason : StopReason) (elapsed : Duration) : Outcome ρ τ :=
  let search := { search with phase := .terminated }
  .ok (search.result reason elapsed) search

variable [RandomSource ρ] [Variation ρ τ] {m : Type → Type} [Monad m]

/-- Goes on until there is a reason to stop. The budget is there for the recursion only: a search
that still wants to go on when it is used up ends in a fault of its own, and a run is given a budget
that it does not use up. -/
def continueWith (watch : Watch m) (problem : Problem ρ τ) (budget : Nat)
    (search : Search ρ τ) : m (Outcome ρ τ) := do
  let signal ← watch.signal
  let search := search.heed signal
  match search.stopReason signal.elapsed with
  | some reason => return search.finish reason signal.elapsed
  | none =>
    match budget with
    | 0 => return .error .endlessRun search
    | budget + 1 =>
      match step problem search with
      | .error fault search => return .error fault search
      | .ok _ search => do
        watch.report search.progress
        continueWith watch problem budget search

/-- Starts the search and runs it to its end, reporting after the start and after every
generation. -/
def runWith (watch : Watch m) (problem : Problem ρ τ) (search : Search ρ τ) :
    m (Outcome ρ τ) := do
  match start problem search with
  | .error fault search => return .error fault search
  | .ok _ search => do
    watch.report search.progress
    continueWith watch problem search.config.population.maxGenerations search

/-- The part of a run on given signals that is not the search: the number of signals taken and the
reports, the latest first. -/
structure RunLog where
  taken : Nat
  reports : List SearchProgress

def scripted (signals : Nat → Signal) : Watch (StateM RunLog) where
  signal := modifyGet fun log => (signals log.taken, { log with taken := log.taken + 1 })
  report progress := modify fun log => { log with reports := progress :: log.reports }

/-- Runs the search on a sequence of signals. The answer is the result with the reports in order. -/
def run (problem : Problem ρ τ) (signals : Nat → Signal) :
    SearchM ρ τ (SearchResult τ × List SearchProgress) := fun search =>
  let (outcome, log) := (runWith (scripted signals) problem search).run ⟨0, []⟩
  match outcome with
  | .ok result search => .ok (result, log.reports.reverse) search
  | .error fault search => .error fault search

end Search

end WitnessSearch
