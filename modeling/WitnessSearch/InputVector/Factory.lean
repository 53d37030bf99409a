import WitnessSearch.InputVector.Basic

/-! Random argument vectors for one function, either one at a time or in suites of up to a given
size. -/

namespace WitnessSearch

/-- What is fixed about the argument vectors to draw. -/
structure InputFactory where
  function : String
  arity : Nat
  low : Int64
  high : Int64
  /-- The largest size of a suite, if suites are to be drawn. -/
  suiteSize : Option Nat

namespace InputFactory

/-- Draws suites of one to `size` tests from now on. A size of zero counts as one. -/
def suites (factory : InputFactory) (size : Nat) : InputFactory :=
  { factory with suiteSize := some (max size 1) }

variable {ρ : Type} [RandomSource ρ]

/-- A test with uniform arguments between the bounds. There has to be room for the arguments before
the first is drawn. -/
def randomTest (factory : InputFactory) : Draw ρ InputVector := do
  ofExcept (Checked.reserve Checked.wordBytes factory.arity)
  let args ← (List.replicate factory.arity ()).mapM fun _ => Draw.between factory.low factory.high
  ofExcept (InputVector.make factory.function args factory.low factory.high)

def testBytes : Nat := 64

/-- A single test, or a suite of uniform size. Once the size is drawn there has to be room for so
many tests. -/
def random (factory : InputFactory) : Draw ρ (Chromosome InputVector) :=
  match factory.suiteSize with
  | none => Chromosome.single <$> factory.randomTest
  | some limit => do
    let size := (← Draw.below limit) + 1
    ofExcept (Checked.reserve testBytes size)
    let tests ← (List.replicate size ()).mapM fun _ => factory.randomTest
    return .suite tests

/-- The factory of the search. It does not favour any goal. -/
def toFactory (factory : InputFactory) : Factory ρ InputVector where
  fresh := factory.random

end InputFactory

end WitnessSearch
