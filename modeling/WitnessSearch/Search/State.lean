import WitnessSearch.Archive.Record
import WitnessSearch.Config
import WitnessSearch.Evaluator

/-! The state of a search. It owns a source of random words, an evaluator, an archive and a
population, and it keeps the goals that are still open. The factory and the executor are fixed for a
search and are handed to each operation as a `Problem`. An operation of the search is a computation
with this state that may end in a fault. -/

namespace WitnessSearch

/-- What a search is run on. -/
structure Problem (ρ τ : Type) where
  factory : Factory ρ τ
  executor : Executor τ

inductive SearchPhase where
  /-- There is no population yet. -/
  | uninitialized
  /-- The population has been evaluated. -/
  | evaluating
  /-- Offspring are being bred. -/
  | evolving
  /-- The run is over. -/
  | terminated
deriving DecidableEq

/-- One entry for each evaluated population, in order. -/
structure SearchHistory where
  /-- The number of goals still open. -/
  remainingGoals : List Nat := []
  /-- The number of witnesses held. -/
  archiveSize : List Nat := []
  /-- The number of executions in the memo. -/
  cacheEntries : List Nat := []
  /-- The number of witnesses accepted. -/
  accepted : List Nat := []
deriving DecidableEq

structure Search (ρ τ : Type) where
  config : Config
  source : ρ
  evaluator : Evaluator
  archive : Archive τ
  population : List (Chromosome τ)
  /-- The goals that are still open, ascending. -/
  remaining : List Goal
  generation : Nat
  phase : SearchPhase
  history : SearchHistory
  /-- Whether the search has been asked to stop. -/
  cancelled : Bool

/-- A computation with a search that may end in a fault. -/
abbrev SearchM (ρ τ : Type) := EStateM Fault (Search ρ τ)

namespace Search

variable {ρ τ : Type}

/-- A search for witnesses of the given goals, before its first population. The configuration has
to pass its checks and there has to be a goal. -/
def new (config : Config) (source : ρ) (goals : List Goal) :
    Except ConfigError (Search ρ τ) := do
  config.validate
  match Archive.new config.multicoverTarget with
  | .error _ => throw .invalidTarget
  | .ok archive =>
    let archive := goals.foldl (fun archive goal => (archive.register goal).2) archive
    if archive.goals.isEmpty then throw .noGoals
    return {
      config
      source
      evaluator := .empty
      archive
      population := []
      remaining := archive.remainingGoals
      generation := 0
      phase := .uninitialized
      history := {}
      cancelled := false }

def cancel (search : Search ρ τ) (cancelled : Bool) : Search ρ τ :=
  { search with cancelled }

def drawing {α : Type} (draw : Draw ρ α) : SearchM ρ τ α := fun search =>
  match draw search.source with
  | .ok answer source => .ok answer { search with source }
  | .error fault source => .error fault { search with source }

/-- Works with the evaluator of the search. While it is at work the search holds an empty one, so
that the memo is not shared. -/
def evaluating {α : Type} (evaluation : Evaluation α) : SearchM ρ τ α := fun search =>
  let evaluator := search.evaluator
  let search := { search with evaluator := .empty }
  match evaluation evaluator with
  | .ok answer evaluator => .ok answer { search with evaluator }
  | .error fault evaluator => .error fault { search with evaluator }

end Search

end WitnessSearch
