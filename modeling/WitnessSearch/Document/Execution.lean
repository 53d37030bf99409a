import WitnessSearch.Json.Decode
import WitnessSearch.Json.Writer
import WitnessSearch.Memo

/-! The documents of goals, observations, executions, fingerprints and memo statistics. Each type
comes with a function into documents and a partial one back. -/

namespace WitnessSearch

namespace Location

def toJson (location : Location) : Json :=
  .ofMembers [("unit", .ofText location.unit), ("function", .ofText location.function),
    ("line", .ofNat location.line.toNat)]

def ofJson? (document : Json) : Option Location := do
  let fields ← Json.Fields.of? ["unit", "function", "line"] document
  return {
    unit := ← fields.required "unit" Json.asText?
    function := ← fields.required "function" Json.asText?
    line := ← fields.required "line" Json.asUInt32? }

end Location

namespace Goal

def toJson (goal : Goal) : Json :=
  .ofMembers [("id", .ofText goal.id), ("location", goal.location.toJson)]

def ofJson? (document : Json) : Option Goal := do
  let fields ← Json.Fields.of? ["id", "location"] document
  return {
    id := ← fields.required "id" Json.asText?
    location := ← fields.required "location" Location.ofJson? }

end Goal

namespace Observation

def toJson (observation : Observation) : Json :=
  .ofList .ofFloat observation.values

def ofJson? (document : Json) : Option Observation :=
  Observation.mk <$> document.asList? Json.asFloat?

end Observation

namespace Execution

def toJson (execution : Execution) : Json :=
  .ofMembers [("fitness", .ofFloat execution.fitness),
    ("observation", .ofOption Observation.toJson execution.observation)]

def ofJson? (document : Json) : Option Execution := do
  let fields ← Json.Fields.of? ["fitness", "observation"] document
  return {
    fitness := ← fields.required "fitness" Json.asFloat?
    observation := ← fields.optional "observation" Observation.ofJson? }

end Execution

namespace Fingerprint

def toJson (fingerprint : Fingerprint) : Json :=
  .ofText fingerprint.text

def ofJson? (document : Json) : Option Fingerprint :=
  Fingerprint.mk <$> document.asText?

end Fingerprint

namespace MemoStats

def toJson (stats : MemoStats) : Json :=
  .ofMembers [("entries", .ofNat stats.entries), ("hits", .ofNat stats.hits),
    ("misses", .ofNat stats.misses)]

def ofJson? (document : Json) : Option MemoStats := do
  let fields ← Json.Fields.of? ["entries", "hits", "misses"] document
  return {
    entries := ← fields.required "entries" Json.asCount?
    hits := ← fields.required "hits" Json.asCount?
    misses := ← fields.required "misses" Json.asCount? }

end MemoStats

end WitnessSearch
