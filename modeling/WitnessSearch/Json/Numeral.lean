import WitnessSearch.Json.Value
import WitnessSearch.Number.Decimal

/-! What numerals stand for. An integer has neither point nor exponent; a negative zero is not one.
A double is made from the digits that fit a 64-bit word: they are rounded to a double and this is
multiplied or divided by one power of ten. With up to fifteen digits and a small exponent this is
the nearest double; beyond that it can be a neighbour of it. -/

namespace WitnessSearch.Numeral

def digitsValue (digits : List Char) : Nat :=
  Nat.ofDigitChars 10 digits 0

def toInt? (numeral : Numeral) : Option Int :=
  if numeral.fraction.isEmpty && numeral.exponent.isNone then
    let value := digitsValue numeral.whole
    if numeral.negative then (if value = 0 then none else some (-(value : Int)))
    else some value
  else none

/-- Reads digits behind a value while the result fits a 64-bit word. What remains are the digits
that were not read. -/
def readDigits : Nat → List Char → Nat × List Char
  | value, [] => (value, [])
  | value, digit :: rest =>
    let next := Nat.ofDigitChars 10 [digit] value
    if next < UInt64.size then readDigits next rest else (value, digit :: rest)

def powerOfTen (exponent : Nat) : Float :=
  Float.ofScientific 1 false exponent

/-- The largest power of ten that is a double. -/
def largestPower : Nat := 308

/-- A double times a power of ten. Powers too small for a double are applied in steps. -/
def scale (value : Float) (exponent : Int) : Option Float :=
  if 0 ≤ exponent then
    if exponent ≤ largestPower then
      let product := value * powerOfTen exponent.toNat
      if product.isInf then none else some product
    else if value == 0.0 then some value
    else none
  else if -exponent ≤ largestPower then some (value / powerOfTen (-exponent).toNat)
  else if value == 0.0 then some value
  else scale (value / powerOfTen largestPower) (exponent + largestPower)
termination_by (-exponent).toNat
decreasing_by simp only [largestPower] at *; omega

def writtenExponent (numeral : Numeral) : Int :=
  match numeral.exponent with
  | none => 0
  | some (.minus, digits) => -(digitsValue digits : Int)
  | some (_, digits) => digitsValue digits

def toFloat? (numeral : Numeral) : Option Float := do
  let (value, unreadWhole) := readDigits 0 numeral.whole
  let (value, unreadFraction) := readDigits value numeral.fraction
  let exponent : Int := unreadWhole.length -
    ((numeral.fraction.length : Int) - unreadFraction.length) + numeral.writtenExponent
  let magnitude ← scale (UInt64.ofNat value).toFloat exponent
  return if numeral.negative then -magnitude else magnitude

def ofNat (value : Nat) : Numeral :=
  ⟨false, Nat.toDigits 10 value, [], none⟩

def ofInt (value : Int) : Numeral :=
  ⟨value < 0, Nat.toDigits 10 value.natAbs, [], none⟩

/-- A decimal as a numeral that shows that it is no integer. -/
def ofDecimal (negative : Bool) (decimal : Decimal) : Numeral :=
  let power := decimal.leadingPower
  let shown (digits : List Char) : List Char := if digits.isEmpty then ['0'] else digits
  if -5 ≤ power ∧ power ≤ 15 then
    let (whole, fraction) := decimal.positional
    ⟨negative, whole, shown fraction, none⟩
  else
    let digits := decimal.digits
    ⟨negative, digits.take 1, digits.drop 1,
      some (if power < 0 then .minus else .plus, Nat.toDigits 10 power.natAbs)⟩

/-- A double as a numeral, if it is finite. -/
def ofFloat? (value : Float) : Option Numeral :=
  match Binary64.ofFloat value with
  | .finite negative magnitude => some (ofDecimal negative (.shortest .even magnitude))
  | _ => none

end WitnessSearch.Numeral
