/-! Contents of files. A file is read as a whole and has to be text. What can go wrong before a
reader sees a single character is collected here. -/

namespace WitnessSearch

/-- Why a file gave no text, or could not be written. -/
inductive FileError where
  /-- There is nothing at the path, or no place to put something. -/
  | notFound
  /-- The path leads to a directory. -/
  | isDirectory
  /-- The path leads through something that is not a directory. -/
  | notADirectory
  /-- The path or a name in it has too many bytes. -/
  | nameTooLong
  /-- The bytes are not UTF-8. -/
  | notText
  /-- Any other reason, in the words of the system. -/
  | other (reason : String)
deriving DecidableEq

def FileError.message : FileError → String
  | .notFound => "No such file or directory (os error 2)"
  | .isDirectory => "Is a directory (os error 21)"
  | .notADirectory => "Not a directory (os error 20)"
  | .nameTooLong => "File name too long (os error 36)"
  | .notText => "stream did not contain valid UTF-8"
  | .other reason => reason

/-- The bytes of a file, or why there are none. -/
abbrev FileContent := Except FileError ByteArray

def FileContent.text (content : FileContent) : Except FileError String := do
  match String.fromUTF8? (← content) with
  | some text => return text
  | none => throw .notText

end WitnessSearch
