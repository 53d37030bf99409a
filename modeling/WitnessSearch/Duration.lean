import WitnessSearch.Number.Binary64

/-! Spans of time, counted in whole nanoseconds. A number of seconds is rounded once, to the nearest
nanosecond with ties to the even one, and the rounding is exact. -/

namespace WitnessSearch

structure Duration where
  nanoseconds : Nat
deriving DecidableEq, Inhabited

namespace Duration

def perSecond : Nat := 1000000000

def ofParts (seconds nanoseconds : Nat) : Duration :=
  ⟨seconds * perSecond + nanoseconds⟩

def seconds (duration : Duration) : Nat :=
  duration.nanoseconds / perSecond

def subseconds (duration : Duration) : Nat :=
  duration.nanoseconds % perSecond

/-- The number of seconds as a double. Whole seconds and nanoseconds are rounded each on its own
before they are added. -/
def toSeconds (duration : Duration) : Float :=
  Float.ofNat duration.seconds + Float.ofNat duration.subseconds / 1e9

/-- The natural number nearest to a fraction, a half going to the even neighbour. -/
def roundHalfEven (numerator denominator : Nat) : Nat :=
  let below := numerator / denominator
  let rest := 2 * (numerator % denominator)
  if rest < denominator ∨ (rest = denominator ∧ below % 2 = 0) then below else below + 1

/-- The number of whole seconds stays below this bound. -/
def secondsLimit : Nat := UInt64.size

/-- The duration nearest to a number of seconds. There is none for a negative number, for what is
not a number and from the limit of seconds on. Both zeros are the empty duration. -/
def ofSeconds? (value : Float) : Option Duration :=
  match Binary64.ofFloat value with
  | .notANumber | .infinite _ => none
  | .finite negative magnitude =>
    if negative ∧ magnitude.significand ≠ 0 then none
    else
      let (numerator, denominator) := magnitude.fraction
      let duration : Duration := ⟨roundHalfEven (numerator * perSecond) denominator⟩
      if duration.seconds < secondsLimit then some duration else none

/-- The digits of `rest / 10 ^ places` after the point, without zeros at the end. -/
def decimals (places rest : Nat) : String :=
  let digits := Nat.toDigits 10 rest
  let padded := List.replicate (places - digits.length) '0' ++ digits
  let kept := (padded.reverse.dropWhile (· = '0')).reverse
  if kept.isEmpty then "" else "." ++ String.ofList kept

/-- A duration in the largest unit of which it holds at least one. -/
def describe (duration : Duration) : String :=
  let total := duration.nanoseconds
  let inUnit (size places : Nat) (unit : String) : String :=
    (total / size).repr ++ decimals places (total % size) ++ unit
  if perSecond ≤ total then inUnit perSecond 9 "s"
  else if 1000000 ≤ total then inUnit 1000000 6 "ms"
  else if 1000 ≤ total then inUnit 1000 3 "µs"
  else inUnit 1 0 "ns"

/-- The number of seconds with two digits after the point. -/
def describeSeconds (duration : Duration) : String :=
  let hundredths := roundHalfEven duration.nanoseconds 10000000
  let digits := Nat.toDigits 10 (hundredths % 100)
  (hundredths / 100).repr ++ "." ++
    String.ofList (List.replicate (2 - digits.length) '0' ++ digits)

end Duration

end WitnessSearch
