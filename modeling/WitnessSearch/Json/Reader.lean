import WitnessSearch.Json.Token

/-! Reading documents. The tokens are taken one after another with the containers part way through
held in a list, so that documents may be nested to any depth. A document is one value with nothing
but blanks around it. -/

namespace WitnessSearch.Json

abbrev Members := List (Option String × Json)

/-- A container part way through, with a value to come. -/
inductive Frame where
  /-- The elements so far, the latest first. -/
  | array (elements : List Json)
  /-- The members so far and the key of the value to come. -/
  | object (members : Members) (key : Option String)

inductive Expecting where
  /-- A value. -/
  | value
  /-- The first element of an array or its end. -/
  | element
  /-- The first key of an object or its end. -/
  | member
  /-- A further key behind some members. -/
  | key (members : Members)
  /-- The colon between a key and its value. -/
  | colon (members : Members) (key : Option String)
  /-- What follows a finished value. -/
  | continuation (value : Json)

/-- A reader between two tokens. -/
structure Reader where
  frames : List Frame
  expecting : Expecting

namespace Reader

def takeValue (frames : List Frame) : Token → Option Reader
  | .null => some ⟨frames, .continuation .null⟩
  | .bool value => some ⟨frames, .continuation (.bool value)⟩
  | .number numeral => some ⟨frames, .continuation (.number numeral)⟩
  | .string text => some ⟨frames, .continuation (.string text)⟩
  | .openArray => some ⟨frames, .element⟩
  | .openObject => some ⟨frames, .member⟩
  | _ => none

def takeContinuation (value : Json) : List Frame → Token → Option Reader
  | .array elements :: frames, .comma => some ⟨.array (value :: elements) :: frames, .value⟩
  | .array elements :: frames, .closeArray =>
    some ⟨frames, .continuation (.array (value :: elements).reverse)⟩
  | .object members key :: frames, .comma => some ⟨frames, .key ((key, value) :: members)⟩
  | .object members key :: frames, .closeObject =>
    some ⟨frames, .continuation (.object ((key, value) :: members).reverse)⟩
  | _, _ => none

def take (reader : Reader) (token : Token) : Option Reader :=
  match reader.expecting, token with
  | .value, token => takeValue reader.frames token
  | .element, .closeArray => some ⟨reader.frames, .continuation (.array [])⟩
  | .element, token => takeValue (.array [] :: reader.frames) token
  | .member, .closeObject => some ⟨reader.frames, .continuation (.object [])⟩
  | .member, .string key => some ⟨reader.frames, .colon [] key⟩
  | .key members, .string key => some ⟨reader.frames, .colon members key⟩
  | .colon members key, .colon => some ⟨.object members key :: reader.frames, .value⟩
  | .continuation value, token => takeContinuation value reader.frames token
  | _, _ => none

def finish : Reader → Option Json
  | ⟨[], .continuation value⟩ => some value
  | _ => none

end Reader

def ofTokens? (tokens : List Token) : Option Json := do
  let reader ← tokens.foldlM Reader.take ⟨[], .value⟩
  reader.finish

def parse? (text : String) : Option Json := do
  ofTokens? (← Token.scan text.toList)

end WitnessSearch.Json
