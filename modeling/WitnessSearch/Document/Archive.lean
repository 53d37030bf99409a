import WitnessSearch.Archive.Record
import WitnessSearch.Document.Execution
import WitnessSearch.FileContent
import WitnessSearch.Json.Reader

/-! The documents of coverage reports and saved archives. A saved archive is the pretty form of its
record. Since what is not finite is written as a null, and a null is no number, an archive with such
an observation is saved in a form that is not read back. -/

namespace WitnessSearch

namespace GoalCoverage

def toJson (coverage : GoalCoverage) : Json :=
  .ofMembers [("goal", coverage.goal.toJson), ("witnesses", .ofNat coverage.witnesses),
    ("target", .ofNat coverage.target), ("covered", .bool coverage.covered)]

def ofJson? (document : Json) : Option GoalCoverage := do
  let fields ← Json.Fields.of? ["goal", "witnesses", "target", "covered"] document
  return {
    goal := ← fields.required "goal" Goal.ofJson?
    witnesses := ← fields.required "witnesses" Json.asCount?
    target := ← fields.required "target" Json.asCount?
    covered := ← fields.required "covered" Json.asBool? }

end GoalCoverage

namespace WitnessRecord

def toJson (witness : WitnessRecord) : Json :=
  .ofMembers [("code", .ofList .ofText witness.code),
    ("observation", witness.observation.toJson), ("generation", .ofNat witness.generation)]

def ofJson? (document : Json) : Option WitnessRecord := do
  let fields ← Json.Fields.of? ["code", "observation", "generation"] document
  return {
    code := ← fields.required "code" (Json.asList? Json.asText?)
    observation := ← fields.required "observation" Observation.ofJson?
    generation := ← fields.required "generation" Json.asCount? }

end WitnessRecord

namespace GoalRecord

def toJson (record : GoalRecord) : Json :=
  .ofMembers [("goal", record.goal.toJson), ("covered", .bool record.covered),
    ("witnesses", .ofList WitnessRecord.toJson record.witnesses)]

def ofJson? (document : Json) : Option GoalRecord := do
  let fields ← Json.Fields.of? ["goal", "covered", "witnesses"] document
  return {
    goal := ← fields.required "goal" Goal.ofJson?
    covered := ← fields.required "covered" Json.asBool?
    witnesses := ← fields.required "witnesses" (Json.asList? WitnessRecord.ofJson?) }

end GoalRecord

/-- Why a saved archive could not be loaded or written. -/
inductive ArchiveFileError where
  | unreadable (cause : FileError)
  /-- The text is no saved archive. -/
  | malformed

/-- The wording of an error. The details of a malformed text are not told. -/
def ArchiveFileError.message : ArchiveFileError → String
  | .unreadable cause => "Archive I/O failed: " ++ cause.message
  | .malformed => "Archive serialization failed"

namespace ArchiveRecord

def toJson (record : ArchiveRecord) : Json :=
  .ofMembers [("target", .ofNat record.target),
    ("goals", .ofList GoalRecord.toJson record.goals)]

def ofJson? (document : Json) : Option ArchiveRecord := do
  let fields ← Json.Fields.of? ["target", "goals"] document
  return {
    target := ← fields.required "target" Json.asCount?
    goals := ← fields.required "goals" (Json.asList? GoalRecord.ofJson?) }

def text (record : ArchiveRecord) : String :=
  record.toJson.pretty

def ofText? (text : String) : Option ArchiveRecord := do
  ofJson? (← Json.parse? text)

def load (content : FileContent) : Except ArchiveFileError ArchiveRecord :=
  match content.text with
  | .error cause => .error (.unreadable cause)
  | .ok text =>
    match ofText? text with
    | some record => .ok record
    | none => .error .malformed

end ArchiveRecord

end WitnessSearch
