import WitnessSearch.InputVector.Basic
import WitnessSearch.Json.Decode
import WitnessSearch.Json.Writer

/-! The documents of argument vectors. The bounds are written as a pair. -/

namespace WitnessSearch

namespace InputVector

def toJson (vector : InputVector) : Json :=
  .ofMembers [("function", .ofText vector.function),
    ("args", .ofList (fun arg => .ofInt arg.toInt) vector.args),
    ("range", .array [.ofInt vector.low.toInt, .ofInt vector.high.toInt])]

/-- The vector of a document. The bounds need not be in order. -/
def ofJson? (document : Json) : Option InputVector := do
  let fields ← Json.Fields.of? ["function", "args", "range"] document
  let function ← fields.required "function" Json.asText?
  let args ← fields.required "args" (Json.asList? Json.asInt64?)
  let (low, high) ← fields.required "range" (Json.asPair? Json.asInt64? Json.asInt64?)
  return ⟨function, args, low, high⟩

end InputVector

end WitnessSearch
