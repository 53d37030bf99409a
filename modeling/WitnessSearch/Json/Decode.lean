import WitnessSearch.Json.Numeral

/-! What documents stand for. A record is written as an object or as an array of its fields in
order. In an object, members that are no fields are passed over and a field may occur once. In an
array the fields come one after another and there is nothing behind the last one; fields with a
default may be missing at the end. A null stands only for a missing optional value. -/

namespace WitnessSearch.Json

def asBool? : Json → Option Bool
  | .bool value => some value
  | _ => none

def asIntWithin? (low high : Int) : Json → Option Int
  | .number numeral => do
    let value ← numeral.toInt?
    if low ≤ value ∧ value < high then some value else none
  | _ => none

def asCount? (document : Json) : Option Nat :=
  (document.asIntWithin? 0 UInt64.size).map Int.toNat

def asUInt64? (document : Json) : Option UInt64 :=
  document.asCount?.map UInt64.ofNat

def asUInt32? (document : Json) : Option UInt32 :=
  (document.asIntWithin? 0 UInt32.size).map fun value => UInt32.ofNat value.toNat

def asInt64? (document : Json) : Option Int64 :=
  (document.asIntWithin? (-0x8000000000000000) 0x8000000000000000).map Int64.ofInt

def asFloat? : Json → Option Float
  | .number numeral => numeral.toFloat?
  | _ => none

def asText? : Json → Option String
  | .string text => text
  | _ => none

def asList? {α : Type} (decode : Json → Option α) : Json → Option (List α)
  | .array elements => elements.mapM decode
  | _ => none

def asPair? {α β : Type} (first : Json → Option α) (second : Json → Option β) :
    Json → Option (α × β)
  | .array [a, b] => do return (← first a, ← second b)
  | _ => none

def asOptional? {α : Type} (decode : Json → Option α) : Json → Option (Option α)
  | .null => some none
  | document => some <$> decode document

/-- One of some named values. The name stands for itself or is the only key of an object with the
value null. -/
def asVariant? {α : Type} (variant? : String → Option α) : Json → Option α
  | .string (some name) => variant? name
  | .object [(some name, .null)] => variant? name
  | _ => none

/-- The fields of a record that are given. -/
structure Fields where
  /-- Whether the fields were given in order without their names. -/
  inOrder : Bool
  values : List (String × Json)

namespace Fields

/-- The members whose keys are among the names. Every key has to be a text, and no name may occur
twice. -/
def ofMembers? (names : List String) :
    List (String × Json) → List (Option String × Json) → Option (List (String × Json))
  | known, [] => some known
  | _, (none, _) :: _ => none
  | known, (some key, value) :: rest =>
    if key ∈ names then
      if (known.lookup key).isSome then none else ofMembers? names ((key, value) :: known) rest
    else ofMembers? names known rest

/-- The given fields of a record with the given names. -/
def of? (names : List String) : Json → Option Fields
  | .object members => do return ⟨false, ← ofMembers? names [] members⟩
  | .array elements =>
    if elements.length ≤ names.length then some ⟨true, names.zip elements⟩ else none
  | _ => none

variable {α : Type}

def required (fields : Fields) (name : String) (decode : Json → Option α) : Option α := do
  decode (← fields.values.lookup name)

def withDefault (fields : Fields) (name : String) (default : α) (decode : Json → Option α) :
    Option α :=
  match fields.values.lookup name with
  | some value => decode value
  | none => some default

/-- An optional field that has to be there, as a null at least, when the fields are given in
order. -/
def optional (fields : Fields) (name : String) (decode : Json → Option α) : Option (Option α) :=
  match fields.values.lookup name with
  | some value => asOptional? decode value
  | none => if fields.inOrder then none else some none

end Fields

/-- Whether a document can be held back until it is known what it stands for: every number has a
double, every string is a text, and there are at most `depth` containers within each other. -/
def canBeHeld : Nat → Json → Bool
  | _, .null => true
  | _, .bool _ => true
  | _, .number numeral => numeral.toFloat?.isSome
  | _, .string text => text.isSome
  | 0, .array _ => false
  | depth + 1, .array elements => elements.all (canBeHeld depth)
  | 0, .object _ => false
  | depth + 1, .object members =>
    members.all fun (key, value) => key.isSome && canBeHeld depth value

end WitnessSearch.Json
