import WitnessSearch.Document.Archive
import WitnessSearch.Search.Run

/-! The documents of what a search reports: its phase, history, progress, statistics and result. The
suite of a result holds tests, so the document of a result is given for any tests that have one. -/

namespace WitnessSearch

namespace SearchPhase

def name : SearchPhase → String
  | .uninitialized => "Uninitialized"
  | .evaluating => "Evaluating"
  | .evolving => "Evolving"
  | .terminated => "Terminated"

def ofName? (name : String) : Option SearchPhase :=
  [uninitialized, evaluating, evolving, terminated].find? (·.name = name)

def toJson (phase : SearchPhase) : Json :=
  .ofText phase.name

def ofJson? (document : Json) : Option SearchPhase :=
  document.asVariant? ofName?

end SearchPhase

namespace StopReason

def name : StopReason → String
  | .allGoalsCovered => "AllGoalsCovered"
  | .maxGenerations => "MaxGenerations"
  | .deadline => "Deadline"
  | .cancelled => "Cancelled"

def ofName? (name : String) : Option StopReason :=
  [allGoalsCovered, maxGenerations, deadline, cancelled].find? (·.name = name)

def toJson (reason : StopReason) : Json :=
  .ofText reason.name

def ofJson? (document : Json) : Option StopReason :=
  document.asVariant? ofName?

end StopReason

namespace SearchHistory

def toJson (history : SearchHistory) : Json :=
  .ofMembers [("remaining_goals", .ofList .ofNat history.remainingGoals),
    ("archive_size", .ofList .ofNat history.archiveSize),
    ("cache_entries", .ofList .ofNat history.cacheEntries),
    ("accepted", .ofList .ofNat history.accepted)]

def ofJson? (document : Json) : Option SearchHistory := do
  let fields ← Json.Fields.of? ["remaining_goals", "archive_size", "cache_entries", "accepted"]
    document
  let counts := Json.asList? Json.asCount?
  return {
    remainingGoals := ← fields.required "remaining_goals" counts
    archiveSize := ← fields.required "archive_size" counts
    cacheEntries := ← fields.required "cache_entries" counts
    accepted := ← fields.required "accepted" counts }

end SearchHistory

namespace SearchProgress

def toJson (progress : SearchProgress) : Json :=
  .ofMembers [
    ("generation", .ofNat progress.generation),
    ("max_generations", .ofNat progress.maxGenerations),
    ("total_goals", .ofNat progress.totalGoals),
    ("remaining_goals", .ofNat progress.remainingGoals),
    ("archive_size", .ofNat progress.archiveSize),
    ("min_coverage", .ofNat progress.minCoverage),
    ("population_size", .ofNat progress.populationSize),
    ("executions", .ofNat progress.executions),
    ("cache", progress.cache.toJson),
    ("history", progress.history.toJson),
    ("phase", progress.phase.toJson)]

def ofJson? (document : Json) : Option SearchProgress := do
  let fields ← Json.Fields.of? ["generation", "max_generations", "total_goals", "remaining_goals",
    "archive_size", "min_coverage", "population_size", "executions", "cache", "history", "phase"]
    document
  return {
    generation := ← fields.required "generation" Json.asCount?
    maxGenerations := ← fields.required "max_generations" Json.asCount?
    totalGoals := ← fields.required "total_goals" Json.asCount?
    remainingGoals := ← fields.required "remaining_goals" Json.asCount?
    archiveSize := ← fields.required "archive_size" Json.asCount?
    minCoverage := ← fields.required "min_coverage" Json.asCount?
    populationSize := ← fields.required "population_size" Json.asCount?
    executions := ← fields.required "executions" Json.asCount?
    cache := ← fields.required "cache" MemoStats.ofJson?
    history := ← fields.required "history" SearchHistory.ofJson?
    phase := ← fields.required "phase" SearchPhase.ofJson? }

end SearchProgress

namespace SearchStats

def toJson (stats : SearchStats) : Json :=
  .ofMembers [
    ("generations", .ofNat stats.generations),
    ("executions", .ofNat stats.executions),
    ("cache", stats.cache.toJson),
    ("archive_size", .ofNat stats.archiveSize),
    ("min_coverage", .ofNat stats.minCoverage),
    ("elapsed_seconds", .ofFloat stats.elapsedSeconds),
    ("stop_reason", stats.stopReason.toJson)]

def ofJson? (document : Json) : Option SearchStats := do
  let fields ← Json.Fields.of? ["generations", "executions", "cache", "archive_size",
    "min_coverage", "elapsed_seconds", "stop_reason"] document
  return {
    generations := ← fields.required "generations" Json.asCount?
    executions := ← fields.required "executions" Json.asCount?
    cache := ← fields.required "cache" MemoStats.ofJson?
    archiveSize := ← fields.required "archive_size" Json.asCount?
    minCoverage := ← fields.required "min_coverage" Json.asCount?
    elapsedSeconds := ← fields.required "elapsed_seconds" Json.asFloat?
    stopReason := ← fields.required "stop_reason" StopReason.ofJson? }

end SearchStats

namespace SearchResult

variable {τ : Type}

def toJson (encode : τ → Json) (result : SearchResult τ) : Json :=
  .ofMembers [
    ("suite", .ofList encode result.suite),
    ("coverage", .ofList GoalCoverage.toJson result.coverage),
    ("stats", result.stats.toJson),
    ("history", result.history.toJson)]

def ofJson? (decode : Json → Option τ) (document : Json) : Option (SearchResult τ) := do
  let fields ← Json.Fields.of? ["suite", "coverage", "stats", "history"] document
  return {
    suite := ← fields.required "suite" (Json.asList? decode)
    coverage := ← fields.required "coverage" (Json.asList? GoalCoverage.ofJson?)
    stats := ← fields.required "stats" SearchStats.ofJson?
    history := ← fields.required "history" SearchHistory.ofJson? }

end SearchResult

end WitnessSearch
