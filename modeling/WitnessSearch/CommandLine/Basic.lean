import WitnessSearch.Document.Config
import WitnessSearch.Document.Search
import WitnessSearch.Random.Keystream
import WitnessSearch.Subject.Executor

/-! The command line. It runs a search on a subject, with a configuration from a file if one is
named, prints how the search goes on and what it found, and saves the archive if a path is given for
it. Everything the command line does to its surroundings goes through a `Console` in some monad, so
that the same definition serves a terminal and a directory in memory. -/

namespace WitnessSearch.CommandLine

/-- The surroundings of the command line. -/
structure Console (m : Type → Type) where
  /-- Prints a line of output. -/
  output : String → m Unit
  /-- Prints a line of errors. -/
  error : String → m Unit
  /-- Reads a file. -/
  read : String → m FileContent
  /-- Replaces the contents of a file. -/
  write : String → String → m (Except FileError Unit)
  /-- The time since the start and what happened to the request to stop. -/
  signal : m Signal
  /-- A seed for a search that is given none. -/
  seed : m UInt64

def programName : String := "multicover"

def padRight (width : Nat) (text : String) : String :=
  text ++ String.ofList (List.replicate (width - text.length) ' ')

def usage : List String :=
  ["Usage: " ++ programName ++ " <subject> [config.json] [archive.json]",
    "",
    "Search for k distinct witnesses of every goal of a subject.",
    "",
    "Arguments:",
    "  subject       Benchmark subject to search on",
    "  config.json   Path to search configuration (default: built-in)",
    "  archive.json  Where to write the final archive",
    "",
    "Subjects:"] ++
  (Subject.all.map fun subject =>
    "  " ++ padRight 20 subject.name ++ " " ++ subject.goals.length.repr ++ " goals") ++
  ["",
    "Example configuration is generated with --example-config flag."]

def exampleConfig : List String :=
  ["Example configuration (config.json):", (Config.toJson {}).pretty]

def heading (subject : Subject) (config : Config) : List String :=
  ["Multicover Search",
    "=================",
    "Subject: " ++ subject.name ++ " (" ++ subject.function ++ ")",
    "Goals: " ++ subject.goals.length.repr,
    "Population: " ++ config.population.size.repr,
    "Generations: " ++ config.population.maxGenerations.repr,
    "Multicover target: " ++ config.multicoverTarget.repr,
    ""]

/-- What is told after the start and after each generation. -/
def progressLine (progress : SearchProgress) : String :=
  "  Generation " ++ progress.generation.repr ++ "/" ++ progress.maxGenerations.repr ++ ": " ++
    progress.remainingGoals.repr ++ " goals remaining, archive " ++ progress.archiveSize.repr ++
    ", " ++ progress.executions.repr ++ " executions"

/-- What is told about the coverage of a goal. -/
def coverageLine (coverage : GoalCoverage) : String :=
  "  [" ++ (if coverage.covered then "x" else " ") ++ "] " ++ coverage.goal.describe ++ " (" ++
    coverage.witnesses.repr ++ "/" ++ coverage.target.repr ++ ")"

/-- What is told about the result of a search. -/
def summary (result : SearchResult InputVector) : List String :=
  let stats := result.stats
  ["", "Coverage:"] ++ result.coverage.map coverageLine ++
  ["", "Suite (" ++ result.suite.length.repr ++ " tests):"] ++
  (result.suite.map fun test => "  " ++ test.code) ++
  ["",
    "Stopped: " ++ stats.stopReason.name ++ " after " ++ stats.generations.repr ++ " generations",
    "Executions: " ++ stats.executions.repr ++ " (cache hits " ++ stats.cache.hits.repr ++
      ", entries " ++ stats.cache.entries.repr ++ ")"]

/-- The exit code of a command that did what was asked for. -/
def success : UInt32 := 0

/-- The exit code of a command that could not do what was asked for. -/
def failure : UInt32 := 1

/-- The exit code of a command that ended in a fault. -/
def aborted : UInt32 := 101

variable {m : Type → Type} [Monad m] (console : Console m)

def outputAll (lines : List String) : m Unit :=
  lines.forM console.output

def fail (message : String) : m UInt32 := do
  console.error message
  return failure

/-- The configuration in a file, or the default one if no file is named. -/
def configuration (path : Option String) : m (Except ConfigError Config) :=
  match path with
  | none => return .ok {}
  | some path => do return Config.load (← console.read path)

/-- Saves an archive if a path is given for it. -/
def save (archive : Archive InputVector) (path : Option String) : m UInt32 :=
  match path with
  | none => return success
  | some path => do
    match ← console.write path archive.record.text with
    | .ok _ =>
      console.output ("Archive written to " ++ path)
      return success
    | .error cause =>
      fail console ("Error writing archive: " ++ (ArchiveFileError.unreadable cause).message)

def search (subject : Subject) (config : Config) (archivePath : Option String) : m UInt32 := do
  outputAll console (heading subject config)
  let seed ← match config.randomSeed with
    | some seed => pure seed
    | none => console.seed
  match Search.new config (Keystream.ofSeed seed) subject.goals with
  | .error error => fail console ("Invalid configuration: " ++ error.message)
  | .ok start =>
    console.output "Running search..."
    let watch : Watch m := ⟨console.signal, fun progress => console.output (progressLine progress)⟩
    let problem : Problem Keystream InputVector :=
      ⟨subject.inputFactory.toFactory, subject.executor⟩
    match ← Search.runWith watch problem start with
    | .error fault _ =>
      console.error fault.message
      return aborted
    | .ok result final =>
      outputAll console (summary result)
      console.output ("Time: " ++ (← console.signal).elapsed.describeSeconds ++ "s")
      save console final.archive archivePath

def run (args : List String) : m UInt32 :=
  match args with
  | [] => do
    usage.forM console.error
    return failure
  | "--example-config" :: _ => do
    outputAll console exampleConfig
    return success
  | name :: rest => do
    match Subject.byName? name with
    | none => fail console ("Unknown subject: " ++ name)
    | some subject =>
      match ← configuration console rest[0]? with
      | .error error => fail console ("Error loading config: " ++ error.message)
      | .ok config => search console subject config rest[1]?

end WitnessSearch.CommandLine
