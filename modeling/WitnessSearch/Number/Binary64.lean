/-! The exact value of a double. A finite double is a sign and a natural significand times a power
of two; the other doubles are the infinities and the values that are not numbers. The arithmetic on
decimals and durations works on this exact form and never on rounded quotients. -/

namespace WitnessSearch

/-- The number `significand * 2 ^ exponent`. -/
structure Dyadic where
  significand : Nat
  exponent : Int
deriving DecidableEq

namespace Dyadic

def fraction (value : Dyadic) : Nat × Nat :=
  (value.significand * Nat.pow 2 value.exponent.toNat, Nat.pow 2 (-value.exponent).toNat)

end Dyadic

/-- The cases of a double. -/
inductive Binary64 where
  | notANumber
  | infinite (negative : Bool)
  /-- A finite value. Both zeros have significand zero. -/
  | finite (negative : Bool) (magnitude : Dyadic)

namespace Binary64

def leastExponent : Int := -1074

/-- The leading bit of a normal significand, `2 ^ 52`, which is not stored. -/
def hiddenBit : Nat := 0x10000000000000

/-- Splits the bits of a double into sign, exponent and significand. The hidden bit is restored
for normal numbers, so the significand of a normal number is at least that bit. -/
def ofBits (bits : UInt64) : Binary64 :=
  let negative := bits >>> 63 == 1
  let field := ((bits >>> 52) &&& 0x7ff).toNat
  let fraction := (bits &&& 0xfffffffffffff).toNat
  if field = 0x7ff then
    if fraction = 0 then .infinite negative else .notANumber
  else if field = 0 then
    .finite negative ⟨fraction, leastExponent⟩
  else
    .finite negative ⟨hiddenBit + fraction, leastExponent + (field - 1 : Int)⟩

def ofFloat (value : Float) : Binary64 :=
  ofBits value.toBits

end Binary64

end WitnessSearch
