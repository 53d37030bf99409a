import WitnessSearch.Duration
import WitnessSearch.FileContent
import WitnessSearch.Number.Decimal

/-! The configuration of a search and the checks it has to pass. The checks are made in a fixed
order and the first that fails is reported. Every setting has a default, and the default
configuration passes all checks. -/

namespace WitnessSearch

/-- How fresh candidates are spread over the goals. -/
inductive Initialization where
  /-- Candidates biased towards the open goals in turn. -/
  | roundRobin
  /-- Candidates without a goal in mind. -/
  | uniform
deriving DecidableEq

/-- How a parent is selected. -/
inductive SelectionMethod where
  /-- The best of `size` drawn candidates. -/
  | tournament (size : Nat)
  /-- A candidate drawn with a weight that falls linearly with its rank. -/
  | rankBased
  /-- Any candidate with equal chances. -/
  | random
deriving DecidableEq

structure PopulationConfig where
  /-- The number of candidates kept between generations. -/
  size : Nat := 50
  /-- The number of generations a run may take. -/
  maxGenerations : Nat := 50
  initialization : Initialization := .roundRobin
deriving DecidableEq

structure RankingConfig where
  /-- Whether the best candidate of each goal goes ahead of the fronts. -/
  preferenceSorting : Bool := true
  /-- Whether candidates that are witnesses already are pushed back. -/
  demoteArchived : Bool := true
deriving DecidableEq

structure Config where
  population : PopulationConfig := {}
  /-- The probability that two parents are crossed. -/
  crossoverRate : Float := 0.75
  /-- The probability that a child is mutated. -/
  mutationRate : Float := 0.75
  /-- The number of distinct witnesses each goal needs. -/
  multicoverTarget : Nat := 2
  selection : SelectionMethod := .tournament 3
  /-- The number of contestants for a candidate that is biased towards a goal. -/
  biasedTournamentSize : Nat := 5
  /-- The share of the candidates meeting a goal that is offered to the archive at once. -/
  archiveFraction : Float := 0.5
  ranking : RankingConfig := {}
  /-- The number of seconds a run may take. -/
  timeBudgetSecs : Option Float := none
  randomSeed : Option UInt64 := none

/-- What can be wrong with a configuration, or with a search that is to be made from it. -/
inductive ConfigError where
  | populationTooSmall (size : Nat)
  | invalidTarget
  /-- The rate with the given name is not in the unit interval. -/
  | invalidRate (name : String) (value : Float)
  | invalidArchiveFraction (value : Float)
  | invalidTournamentSize
  | invalidTimeBudget (value : Float)
  | noGoals
  /-- The file could not be read. -/
  | unreadable (cause : FileError)
  /-- The text is not a configuration. -/
  | malformed

namespace ConfigError

/-- The wording of an error. The details of a malformed text are not told. -/
def message : ConfigError → String
  | populationTooSmall size => "Population size must be at least 2, got " ++ size.repr
  | invalidTarget => "Multicover target must be at least 1"
  | invalidRate name value => name ++ " must be within [0, 1], got " ++ plainText value
  | invalidArchiveFraction value =>
    "Archive fraction must be within (0, 1], got " ++ plainText value
  | invalidTournamentSize => "Tournament size must be at least 1"
  | invalidTimeBudget value => "Time budget must be positive, got " ++ plainText value
  | noGoals => "No goals to search for"
  | unreadable cause => "Failed to read config: " ++ cause.message
  | malformed => "Failed to parse config"

end ConfigError

namespace Config

/-- The time a run may take. There is none if it is not set or not a duration. -/
def timeBudget (config : Config) : Option Duration :=
  config.timeBudgetSecs.bind Duration.ofSeconds?

/-- Checks that a rate lies in the unit interval. -/
def checkRate (name : String) (value : Float) : Except ConfigError Unit :=
  if 0.0 ≤ value ∧ value ≤ 1.0 then .ok () else .error (.invalidRate name value)

def hasContestants (config : Config) : Bool :=
  config.biasedTournamentSize ≠ 0 && config.selection ≠ .tournament 0

def checkTimeBudget (budget : Option Float) : Except ConfigError Unit :=
  match budget with
  | none => .ok ()
  | some value =>
    if 0.0 < value ∧ (Duration.ofSeconds? value).isSome then .ok ()
    else .error (.invalidTimeBudget value)

/-- Makes all checks and reports the first that fails. -/
def validate (config : Config) : Except ConfigError Unit := do
  if config.population.size < 2 then throw (.populationTooSmall config.population.size)
  if config.multicoverTarget = 0 then throw .invalidTarget
  checkRate "crossover_rate" config.crossoverRate
  checkRate "mutation_rate" config.mutationRate
  if ¬(0.0 < config.archiveFraction ∧ config.archiveFraction ≤ 1.0) then
    throw (.invalidArchiveFraction config.archiveFraction)
  if ¬config.hasContestants then throw .invalidTournamentSize
  checkTimeBudget config.timeBudgetSecs

end Config

end WitnessSearch
