import WitnessSearch.FileContent

/-! Paths. A path is a row of steps between slashes, taken from the root or from the directory a
process is in. A step stays where it is, goes to the parent, or goes to a name. Slashes in a row
count as one, and a slash after the last step says that the path is meant for a directory. -/

namespace WitnessSearch.CommandLine

/-- One step of a path. -/
inductive Step where
  | stay
  | parent
  | child (name : String)
deriving DecidableEq

def Step.ofText (text : String) : Step :=
  if text = "." then .stay
  else if text = ".." then .parent
  else .child text

structure Path where
  /-- Whether the path starts at the root. -/
  absolute : Bool
  steps : List Step
  /-- Whether a slash follows the last step. -/
  forDirectory : Bool
deriving DecidableEq

namespace Path

def byteLimit : Nat := 4095

/-- The most bytes of a name in a path. -/
def nameByteLimit : Nat := 255

/-- Reads a path. A path without characters leads nowhere. Its names are not measured here, but only
when they are looked up. -/
def ofText (text : String) : Except FileError Path :=
  if text.isEmpty then .error .notFound
  else if byteLimit < text.utf8ByteSize then .error .nameTooLong
  else .ok {
    absolute := text.startsWith "/"
    steps := ((text.splitOn "/").filter (· ≠ "")).map Step.ofText
    forDirectory := text.endsWith "/" }

def way (path : Path) : List Step :=
  path.steps.dropLast

/-- The last step. The path of the root stays there. -/
def goal (path : Path) : Step :=
  path.steps.getLast?.getD .stay

end Path

end WitnessSearch.CommandLine
