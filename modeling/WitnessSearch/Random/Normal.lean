import WitnessSearch.Random.Source
import WitnessSearch.Random.NormalLayers

/-! Draws from the standard normal distribution by the layers of its density. A word picks a layer
and a point in its width. A point under the next edge lies below the density and is taken at once;
otherwise a second word decides by the density itself, and the widest layer hands over to the tail.
-/

namespace WitnessSearch.Draw

open NormalLayers

variable {ρ : Type} [RandomSource ρ]

/-- The double with the upper 52 bits of a word as its fraction and the given exponent bits. -/
def fractionWith (exponentBits word : UInt64) : Float :=
  Float.ofBits ((word >>> 12) ||| exponentBits)

def openUnit : Draw ρ Float := do
  let word ← word
  return fractionWith 0x3ff0000000000000 word - Float.ofBits 0x3fefffffffffffff

def halfOpenUnit : Draw ρ Float := do
  let word ← word
  return (word >>> 11).toFloat * Float.ofBits 0x3ca0000000000000

/-- The distance of a point of the tail from its beginning, by pairs of exponential draws. -/
def tailExcess : Nat → Draw ρ Float
  | 0 => throw .endlessRejection
  | budget + 1 => do
    let first ← openUnit
    let second ← openUnit
    let x := first.log / tailStart
    let y := second.log
    if -2.0 * y < x * x then tailExcess budget else pure x

/-- A point of the tail, on the side of the sign of `side`. -/
def tail (side : Float) : Draw ρ Float := do
  let x ← tailExcess rejectionBudget
  return if side < 0.0 then x - tailStart else tailStart - x

def normalWithin : Nat → Draw ρ Float
  | 0 => throw .endlessRejection
  | budget + 1 => do
    let bits ← word
    let layer := (bits &&& 0xff).toNat
    let u := fractionWith 0x4000000000000000 bits - 3.0
    let x := u * edge layer
    if x.abs < edge (layer + 1) then pure x
    else if layer = 0 then tail u
    else
      let height ← halfOpenUnit
      let level := density (layer + 1) + (density layer - density (layer + 1)) * height
      if level < (-x * x / 2.0).exp then pure x else normalWithin budget

def normal : Draw ρ Float :=
  normalWithin rejectionBudget

end WitnessSearch.Draw
