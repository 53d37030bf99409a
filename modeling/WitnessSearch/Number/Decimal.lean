import WitnessSearch.Number.Binary64

/-! Shortest decimals. Among the decimals that read back as a given double there is a coarsest grid
`10 ^ k` that holds one; of the points of that grid the one nearest to the double is its shortest
decimal. The search goes through the grids from coarse to fine and looks at the two neighbours of
the double on each. All of it is exact arithmetic on natural numbers. -/

namespace WitnessSearch

/-- The number `coefficient * 10 ^ exponent`. -/
structure Decimal where
  coefficient : Nat
  exponent : Int
deriving DecidableEq

/-- What to take when a double lies in the middle between two candidates of one grid. -/
inductive TieRule where
  /-- Take the larger magnitude. -/
  | up
  /-- Take the candidate with an even coefficient. -/
  | even
deriving DecidableEq

/-- The interval of magnitudes that round to one double, in multiples of a unit `2 ^ exponent`.
The ends belong to it when `closed` is set. -/
structure RoundingInterval where
  low : Nat
  value : Nat
  high : Nat
  exponent : Int
  closed : Bool

namespace RoundingInterval

/-- The interval around a finite nonzero double. Below a power of two the neighbours are half as
far apart, unless the double has the least exponent. -/
def around (value : Dyadic) : RoundingInterval where
  low := 4 * value.significand -
    (if value.significand = Binary64.hiddenBit ∧ Binary64.leastExponent < value.exponent then 1 else 2)
  value := 4 * value.significand
  high := 4 * value.significand + 2
  exponent := value.exponent - 2
  closed := value.significand % 2 = 0

/-- Whether `left / scale` is below `right`, or equal to it at a closed end. -/
def reaches (interval : RoundingInterval) (left right : Nat) : Bool :=
  left < right || (interval.closed && left = right)

/-- The point of the grid `10 ^ k` nearest to the double, if a point of the grid rounds to it. -/
def nearestOnGrid (interval : RoundingInterval) (tie : TieRule) (k : Int) : Option Nat :=
  let scale := Nat.pow 2 interval.exponent.toNat * Nat.pow 10 (-k).toNat
  let step := Nat.pow 2 (-interval.exponent).toNat * Nat.pow 10 k.toNat
  let value := interval.value * scale
  let below := value / step
  let above := below + 1
  let belowRounds := interval.reaches (interval.low * scale) (below * step)
  let aboveRounds := interval.reaches (above * step) (interval.high * scale)
  let toBelow := value - below * step
  let toAbove := above * step - value
  match belowRounds, aboveRounds with
  | true, true =>
    some <| if toBelow < toAbove then below
      else if toAbove < toBelow then above
      else if tie = .even ∧ below % 2 = 0 then below
      else above
  | true, false => some below
  | false, true => some above
  | false, false => none

end RoundingInterval

namespace Decimal

/-- Moves the zeros at the end of the coefficient into the exponent. The fuel is the number of
zeros that may be moved. -/
def trim : Nat → Decimal → Decimal
  | 0, decimal => decimal
  | fuel + 1, ⟨coefficient, exponent⟩ =>
    if coefficient ≠ 0 ∧ coefficient % 10 = 0 then trim fuel ⟨coefficient / 10, exponent + 1⟩
    else ⟨coefficient, exponent⟩

def firstOnGrids (interval : RoundingInterval) (tie : TieRule) : Nat → Int → Decimal
  | 0, k => ⟨0, k⟩
  | fuel + 1, k =>
    match interval.nearestOnGrid tie k with
    | some coefficient => trim 20 ⟨coefficient, k⟩
    | none => firstOnGrids interval tie fuel (k - 1)

/-- The shortest decimal of a finite magnitude. The first grid is coarser than the magnitude, and
seventeen digits always suffice, so the twenty-four grids that are tried reach an answer. -/
def shortest (tie : TieRule) (value : Dyadic) : Decimal :=
  if value.significand = 0 then ⟨0, 0⟩
  else
    let binary : Int := value.significand.log2 + value.exponent
    firstOnGrids (.around value) tie 24 (Int.fdiv (binary * 30103) 100000 + 2)

def digits (decimal : Decimal) : List Char :=
  Nat.toDigits 10 decimal.coefficient

/-- The digits before and after the point, without an exponent. There is a digit before the point,
and there are as many digits after it as the exponent asks for. -/
def positional (decimal : Decimal) : List Char × List Char :=
  let digits := decimal.digits
  if 0 ≤ decimal.exponent then
    if decimal.coefficient = 0 then (['0'], [])
    else (digits ++ List.replicate decimal.exponent.toNat '0', [])
  else
    let after := (-decimal.exponent).toNat
    let padded := List.replicate (after + 1 - digits.length) '0' ++ digits
    (padded.take (padded.length - after), padded.drop (padded.length - after))

def leadingPower (decimal : Decimal) : Int :=
  decimal.exponent + (decimal.digits.length - 1 : Int)

end Decimal

/-- The plain text of a double: its shortest decimal without an exponent, whole numbers without a
point, and words for what is not finite. A tie goes up. -/
def plainText (value : Float) : String :=
  match Binary64.ofFloat value with
  | .notANumber => "NaN"
  | .infinite negative => if negative then "-inf" else "inf"
  | .finite negative magnitude =>
    let (whole, fraction) := (Decimal.shortest .up magnitude).positional
    (if negative then "-" else "") ++ String.ofList whole ++
      (if fraction.isEmpty then "" else "." ++ String.ofList fraction)

end WitnessSearch
