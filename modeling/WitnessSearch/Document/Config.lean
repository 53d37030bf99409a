import WitnessSearch.Config
import WitnessSearch.Json.Decode
import WitnessSearch.Json.Reader
import WitnessSearch.Json.Writer

/-! The documents of configurations. Every field may be left out and then has its default. The
selection method is an object whose member `method` names the method, at any place among the members
that belong to the method. Since the members before the name have to be kept until the method is
known, the object may not be nested as deeply as others. -/

namespace WitnessSearch

namespace Initialization

def name : Initialization → String
  | .roundRobin => "RoundRobin"
  | .uniform => "Uniform"

def ofName? (name : String) : Option Initialization :=
  [roundRobin, uniform].find? (·.name = name)

def toJson (initialization : Initialization) : Json :=
  .ofText initialization.name

def ofJson? (document : Json) : Option Initialization :=
  document.asVariant? ofName?

end Initialization

namespace PopulationConfig

def toJson (config : PopulationConfig) : Json :=
  .ofMembers [("size", .ofNat config.size), ("max_generations", .ofNat config.maxGenerations),
    ("initialization", config.initialization.toJson)]

def ofJson? (document : Json) : Option PopulationConfig := do
  let fields ← Json.Fields.of? ["size", "max_generations", "initialization"] document
  let default : PopulationConfig := {}
  return {
    size := ← fields.withDefault "size" default.size Json.asCount?
    maxGenerations := ← fields.withDefault "max_generations" default.maxGenerations Json.asCount?
    initialization :=
      ← fields.withDefault "initialization" default.initialization Initialization.ofJson? }

end PopulationConfig

namespace SelectionMethod

/-- The number of contestants of a tournament that does not give it. -/
def defaultTournamentSize : Nat := 3

def toJson : SelectionMethod → Json
  | .tournament size => .ofMembers [("method", .ofText "Tournament"), ("size", .ofNat size)]
  | .rankBased => .ofMembers [("method", .ofText "RankBased")]
  | .random => .ofMembers [("method", .ofText "Random")]

/-- The method with a name and the document of its own fields, which is an object or an array. -/
def ofParts? (name : String) (rest : Json) : Option SelectionMethod :=
  if name = "Tournament" then do
    let fields ← Json.Fields.of? ["size"] rest
    return .tournament (← fields.withDefault "size" defaultTournamentSize Json.asCount?)
  else if name = "RankBased" then unitMethod .rankBased
  else if name = "Random" then unitMethod .random
  else none
where
  /-- A method without fields of its own. -/
  unitMethod (method : SelectionMethod) : Option SelectionMethod :=
    match rest with
    | .array (_ :: _) => none
    | _ => some method

/-- The method of a document that may still hold `depth` containers within each other. -/
def ofJsonWithin? (depth : Nat) (document : Json) : Option SelectionMethod :=
  if document.canBeHeld depth then
    match document with
    | .object members =>
      match members.filter fun (key, _) => key = some "method" with
      | [(_, .string (some name))] =>
        ofParts? name (.object (members.filter fun (key, _) => key ≠ some "method"))
      | _ => none
    | .array (.string (some name) :: rest) => ofParts? name (.array rest)
    | _ => none
  else none

/-- The number of containers that may be within each other when some have to be kept. -/
def depthLimit : Nat := 127

def ofJson? (document : Json) : Option SelectionMethod :=
  ofJsonWithin? depthLimit document

end SelectionMethod

namespace RankingConfig

def toJson (config : RankingConfig) : Json :=
  .ofMembers [("preference_sorting", .bool config.preferenceSorting),
    ("demote_archived", .bool config.demoteArchived)]

def ofJson? (document : Json) : Option RankingConfig := do
  let fields ← Json.Fields.of? ["preference_sorting", "demote_archived"] document
  let default : RankingConfig := {}
  return {
    preferenceSorting :=
      ← fields.withDefault "preference_sorting" default.preferenceSorting Json.asBool?
    demoteArchived := ← fields.withDefault "demote_archived" default.demoteArchived Json.asBool? }

end RankingConfig

namespace Config

def toJson (config : Config) : Json :=
  .ofMembers [
    ("population", config.population.toJson),
    ("crossover_rate", .ofFloat config.crossoverRate),
    ("mutation_rate", .ofFloat config.mutationRate),
    ("multicover_target", .ofNat config.multicoverTarget),
    ("selection", config.selection.toJson),
    ("biased_tournament_size", .ofNat config.biasedTournamentSize),
    ("archive_fraction", .ofFloat config.archiveFraction),
    ("ranking", config.ranking.toJson),
    ("time_budget_secs", .ofOption .ofFloat config.timeBudgetSecs),
    ("random_seed", .ofOption (fun seed => .ofNat seed.toNat) config.randomSeed)]

def fieldNames : List String :=
  ["population", "crossover_rate", "mutation_rate", "multicover_target", "selection",
    "biased_tournament_size", "archive_fraction", "ranking", "time_budget_secs", "random_seed"]

def ofJson? (document : Json) : Option Config := do
  let fields ← Json.Fields.of? fieldNames document
  let default : Config := {}
  return {
    population := ← fields.withDefault "population" default.population PopulationConfig.ofJson?
    crossoverRate := ← fields.withDefault "crossover_rate" default.crossoverRate Json.asFloat?
    mutationRate := ← fields.withDefault "mutation_rate" default.mutationRate Json.asFloat?
    multicoverTarget :=
      ← fields.withDefault "multicover_target" default.multicoverTarget Json.asCount?
    selection := ← fields.withDefault "selection" default.selection
      (SelectionMethod.ofJsonWithin? (SelectionMethod.depthLimit - 1))
    biasedTournamentSize :=
      ← fields.withDefault "biased_tournament_size" default.biasedTournamentSize Json.asCount?
    archiveFraction := ← fields.withDefault "archive_fraction" default.archiveFraction Json.asFloat?
    ranking := ← fields.withDefault "ranking" default.ranking RankingConfig.ofJson?
    timeBudgetSecs := ← fields.withDefault "time_budget_secs" default.timeBudgetSecs
      (Json.asOptional? Json.asFloat?)
    randomSeed := ← fields.withDefault "random_seed" default.randomSeed
      (Json.asOptional? Json.asUInt64?) }

def ofText? (text : String) : Option Config := do
  ofJson? (← Json.parse? text)

/-- The configuration that a text holds, if it passes its checks. -/
def parse (text : String) : Except ConfigError Config := do
  match ofText? text with
  | none => throw .malformed
  | some config =>
    config.validate
    return config

def load (content : FileContent) : Except ConfigError Config :=
  match content.text with
  | .error cause => .error (.unreadable cause)
  | .ok text => parse text

end Config

end WitnessSearch
