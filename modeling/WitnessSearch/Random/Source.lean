import WitnessSearch.Fault

/-! Sources of random words and the draws made from them. Every random decision of the search takes
64-bit words from one source, one after another, so a source in a known state fixes all of them. The
statements about draws hold for every source; which words a source yields is its own matter. -/

namespace WitnessSearch

/-- A state that yields 64-bit words one after another. -/
class RandomSource (ρ : Type) where
  /-- The next word and the state after it. -/
  next : ρ → UInt64 × ρ

/-- A computation that draws from a source and may end in a fault. The source is kept in either
case. -/
abbrev Draw (ρ : Type) := EStateM Fault ρ

namespace Draw

variable {ρ : Type} [RandomSource ρ]

def word : Draw ρ UInt64 := fun source =>
  let (word, source) := RandomSource.next source
  .ok word source

/-- How many words a rejection sampler may turn down. A run that drew this many words would not
end within any time that matters. -/
def rejectionBudget : Nat := 0x4000000000000000

/-- The multiples of `span` cover the words below the largest product of `span` with a power of
two. Low halves above this zone are turned down, so that every offset is equally likely. -/
def acceptedZone (span : UInt64) : UInt64 :=
  (span <<< (63 - span.toNat.log2).toUInt64) - 1

/-- Multiplies words by `span` until the low half of the product lies in the zone. The high half is
the offset. -/
def offsetWithin (span zone : UInt64) : Nat → Draw ρ UInt64
  | 0 => throw .endlessRejection
  | budget + 1 => do
    let word ← word
    let product := word.toNat * span.toNat
    if product % UInt64.size ≤ zone.toNat then pure (UInt64.ofNat (product / UInt64.size))
    else offsetWithin span zone budget

/-- A uniform offset below `span`, which is not zero. -/
def offset (span : UInt64) : Draw ρ UInt64 :=
  offsetWithin span (acceptedZone span) rejectionBudget

/-- A uniform number below `bound`. A bound of one still draws. -/
def below (bound : Nat) : Draw ρ Nat :=
  if bound = 0 then throw .emptyRange
  else do
    let offset ← offset (UInt64.ofNat bound)
    return offset.toNat

/-- A uniform index into a list of `length` elements. -/
def index (length : Nat) : Draw ρ Nat :=
  if length = 0 then throw .noElements else below length

/-- A uniform integer from `low` to `high`, both included. Between the least and the greatest
integer every word stands for itself; the span wraps to zero there and nowhere else. -/
def between (low high : Int64) : Draw ρ Int64 :=
  if high < low then throw .emptyRange
  else
    let span := high.toUInt64 - low.toUInt64 + 1
    if span = 0 then UInt64.toInt64 <$> word
    else do
      let offset ← offset span
      return (low.toUInt64 + offset).toInt64

/-- True with the given probability. A certain event takes no draw. -/
def bernoulli (probability : Float) : Draw ρ Bool :=
  if probability == 1.0 then pure true
  else if 0.0 ≤ probability ∧ probability < 1.0 then do
    let word ← word
    return word < (probability * 18446744073709551616.0).toUInt64
  else throw .invalidProbability

/-- True with the given probability after clamping it to the unit interval. What is not a number
stays so and is a fault. -/
def chance (probability : Float) : Draw ρ Bool :=
  bernoulli <|
    if probability < 0.0 then 0.0 else if 1.0 < probability then 1.0 else probability

end Draw

end WitnessSearch
