import WitnessSearch.CommandLine.Path

/-! Files in memory. A tree holds directories and files by their locations, and paths lead through
it as they lead through the files of a system: each name on the way is looked up in its directory,
and the first that is missing, too long or no directory ends the walk. Next to the files of one
process there are only the root, the directories `/dev` and `/tmp`, and the null device. -/

namespace WitnessSearch.CommandLine

/-- The names that lead from the root to a place, the last one first. -/
abbrev Location := List String

/-- What can be found at a location. -/
inductive Entry where
  | directory
  | file (content : ByteArray)
  /-- A file that is always empty and drops what is written to it. -/
  | nullDevice

structure FileTree where
  /-- The directory in which relative paths start. -/
  home : Location
  entries : List (Location × Entry)

namespace FileTree

/-- A tree with the given files in the directory of the process. -/
def ofFiles (files : List (String × ByteArray)) : FileTree :=
  let home := ["", "tmp"]
  { home
    entries := (files.map fun (name, content) => (name :: home, .file content)) ++
      [(["tmp"], .directory), (["dev"], .directory), (["null", "dev"], .nullDevice)] }

def content? (tree : FileTree) (name : String) : Option ByteArray :=
  match tree.entries.lookup (name :: tree.home) with
  | some (.file content) => some content
  | _ => none

/-- Puts an entry at a location, in the place of the one that is there. -/
def put (tree : FileTree) (location : Location) (entry : Entry) : FileTree :=
  { tree with entries := (location, entry) :: tree.entries.filter (·.1 ≠ location) }

def lookUp (tree : FileTree) (directory : Location) (name : String) :
    Except FileError (Option Entry) :=
  if Path.nameByteLimit < name.utf8ByteSize then .error .nameTooLong
  else .ok (tree.entries.lookup (name :: directory))

/-- Takes a step that has to lead to a directory. The parent of the root is the root. -/
def enter (tree : FileTree) (directory : Location) : Step → Except FileError Location
  | .stay => .ok directory
  | .parent => .ok directory.tail
  | .child name => do
    match ← tree.lookUp directory name with
    | some .directory => return name :: directory
    | some _ => throw .notADirectory
    | none => throw .notFound

/-- The directory in which the last step of a path is taken. -/
def approach (tree : FileTree) (path : Path) : Except FileError Location :=
  path.way.foldlM tree.enter (if path.absolute then [] else tree.home)

def read (tree : FileTree) (text : String) : FileContent := do
  let path ← Path.ofText text
  let directory ← tree.approach path
  match path.goal with
  | .stay | .parent => throw .isDirectory
  | .child name =>
    match ← tree.lookUp directory name with
    | none => throw .notFound
    | some .directory => throw .isDirectory
    | some (.file content) => if path.forDirectory then throw .notADirectory else return content
    | some .nullDevice => if path.forDirectory then throw .notADirectory else return .empty

/-- Replaces the contents at a path. A path that is meant for a directory is turned down before its
last name is looked up. -/
def write (tree : FileTree) (text content : String) : Except FileError FileTree := do
  let path ← Path.ofText text
  let directory ← tree.approach path
  match path.goal with
  | .stay | .parent => throw .isDirectory
  | .child name =>
    if path.forDirectory then throw .isDirectory
    match ← tree.lookUp directory name with
    | some .directory => throw .isDirectory
    | some .nullDevice => return tree
    | _ => return tree.put (name :: directory) (.file content.toUTF8)

end FileTree

end WitnessSearch.CommandLine
