import WitnessSearch.Fault

/-! Integer arithmetic that refuses to wrap. Each operation computes the exact integer and is a
fault when it does not fit, so a result that is returned is the mathematical one. The saturating
operations, the clamps, the access by index and the room for lists are here too, since they are
stopped or bounded in the same way. -/

namespace WitnessSearch.Checked

def fitsInt64 (value : Int) : Bool :=
  Int64.minValue.toInt ≤ value && value ≤ Int64.maxValue.toInt

/-- The word for an integer, or the given fault if there is none. -/
def narrow (fault : Fault) (value : Int) : Except Fault Int64 :=
  if fitsInt64 value then .ok (Int64.ofInt value) else .error fault

def add (a b : Int64) : Except Fault Int64 :=
  narrow .additionOverflow (a.toInt + b.toInt)

def sub (a b : Int64) : Except Fault Int64 :=
  narrow .subtractionOverflow (a.toInt - b.toInt)

def mul (a b : Int64) : Except Fault Int64 :=
  narrow .multiplicationOverflow (a.toInt * b.toInt)

def saturate (value : Int) : Int64 :=
  if value < Int64.minValue.toInt then Int64.minValue
  else if Int64.maxValue.toInt < value then Int64.maxValue
  else Int64.ofInt value

def saturatingAdd (a b : Int64) : Int64 :=
  saturate (a.toInt + b.toInt)

def saturatingSub (a b : Int64) : Int64 :=
  saturate (a.toInt - b.toInt)

/-- The value nearest to `value` between the bounds, which have to be in order. -/
def clamp (low high value : Int64) : Except Fault Int64 :=
  if high < low then .error .invertedBounds
  else .ok (if value < low then low else if high < value then high else value)

def countLimit : Nat := UInt64.size

def addCounts (a b : Nat) : Except Fault Nat :=
  if a + b < countLimit then .ok (a + b) else .error .additionOverflow

def mulCounts (a b : Nat) : Except Fault Nat :=
  if a * b < countLimit then .ok (a * b) else .error .countOverflow

def subCounts (a b : Nat) : Except Fault Nat :=
  if b ≤ a then .ok (a - b) else .error .subtractionOverflow

/-- The count nearest to `value` between the bounds, which have to be in order. -/
def clampCount (low high value : Nat) : Except Fault Nat :=
  if high < low then .error .invertedBounds
  else .ok (if value < low then low else if high < value then high else value)

def listBytes : Nat := 0x7fffffffffffffff

def wordBytes : Nat := 8

/-- Makes room for a list of `count` elements of the given size. Room is made before the first
element is known, so a list that would be too long is refused before anything else happens. -/
def reserve (elementBytes count : Nat) : Except Fault Unit :=
  if elementBytes * count ≤ listBytes then .ok () else .error .capacityOverflow

def fetch {α : Type} (xs : Array α) (index : Nat) : Except Fault α :=
  match xs[index]? with
  | some x => .ok x
  | none => .error (.indexOutOfBounds xs.size index)

end WitnessSearch.Checked
