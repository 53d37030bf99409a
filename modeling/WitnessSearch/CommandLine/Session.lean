import WitnessSearch.CommandLine.Basic
import WitnessSearch.CommandLine.FileTree

/-! A session in memory: a tree of files, the lines that were printed, and a fixed signal. It shows
what a command does without touching a file system. -/

namespace WitnessSearch.CommandLine

structure Session where
  tree : FileTree
  /-- The lines of output, the latest first. -/
  output : List String
  /-- The lines of errors, the latest first. -/
  errors : List String

namespace Session

/-- A session with the given files before anything was printed. -/
def start (files : List (String × ByteArray)) : Session :=
  ⟨.ofFiles files, [], []⟩

def trimReturn (line : String) : String :=
  if line.endsWith "\r" then (line.dropEnd 1).copy else line

/-- The lines of a printed text. A line ends in a line feed with or without a carriage return. -/
def lines (text : String) : List String :=
  (text.splitOn "\n").map trimReturn

/-- The console of a session, with one signal that is given again and again and one seed. -/
def console (signal : Signal) (seed : UInt64) : Console (StateM Session) where
  output text := modify fun session =>
    { session with output := (lines text).reverse ++ session.output }
  error text := modify fun session =>
    { session with errors := (lines text).reverse ++ session.errors }
  read path := do return (← get).tree.read path
  write path text := modifyGet fun session =>
    match session.tree.write path text with
    | .ok tree => (.ok (), { session with tree })
    | .error cause => (.error cause, session)
  signal := return signal
  seed := return seed

/-- Runs the command line in a session. The answer is the exit code and the session afterwards. -/
def run (signal : Signal) (seed : UInt64) (args : List String) (session : Session) :
    UInt32 × Session :=
  (CommandLine.run (console signal seed) args).run session

end Session

end WitnessSearch.CommandLine
