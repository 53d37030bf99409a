import WitnessSearch.CommandLine.Basic

/-! The program. It connects the command line to the terminal, the file system and the clock. -/

namespace WitnessSearch.CommandLine

/-- Whether the code of a system error is the given one. Some calls report it as a negative word. -/
def isCode (expected code : UInt32) : Bool :=
  code = expected || code = -expected

/-- The file error for an error of the system. -/
def fileError : IO.Error → FileError
  | .noFileOrDirectory _ _ _ => .notFound
  | .inappropriateType _ code reason =>
    if isCode 21 code then .isDirectory
    else if isCode 20 code then .notADirectory
    else .other reason
  | .invalidArgument _ code reason => if isCode 36 code then .nameTooLong else .other reason
  | error => .other (toString error)

/-- The console of a process that was started at the given time. -/
def terminal (started : Nat) : Console IO where
  output := IO.println
  error := IO.eprintln
  read path := do
    try return .ok (← IO.FS.readBinFile path)
    catch error => return .error (fileError error)
  write path text := do
    try
      IO.FS.writeFile path text
      return .ok ()
    catch error => return .error (fileError error)
  signal := do return { elapsed := ⟨(← IO.monoNanosNow) - started⟩ }
  seed := do
    let bytes ← IO.getRandomBytes 8
    return bytes.foldl (fun seed byte => (seed <<< 8) ||| byte.toUInt64) 0

end WitnessSearch.CommandLine

open WitnessSearch in
/-- Runs the command line on the arguments of the process. -/
def main (args : List String) : IO UInt32 := do
  CommandLine.run (CommandLine.terminal (← IO.monoNanosNow)) args
