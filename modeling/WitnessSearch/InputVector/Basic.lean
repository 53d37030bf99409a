import WitnessSearch.Chromosome
import WitnessSearch.Number.Checked
import WitnessSearch.Random.Normal

/-! Integer argument vectors as tests. A vector is one call of a function with a fixed number of
arguments, together with the bounds that mutation keeps. Its code is the call as one would write it;
the bounds do not take part in the code. -/

namespace WitnessSearch

structure InputVector where
  function : String
  args : List Int64
  /-- The lower bound that mutation keeps, included. -/
  low : Int64
  /-- The upper bound that mutation keeps, included. -/
  high : Int64
deriving DecidableEq

namespace InputVector

/-- A vector with bounds in order. The arguments need not lie between them. -/
def make (function : String) (args : List Int64) (low high : Int64) : Except Fault InputVector :=
  if high < low then .error .invertedInputRange else .ok ⟨function, args, low, high⟩

def code (vector : InputVector) : String :=
  vector.function ++ "(" ++
    String.intercalate ", " (vector.args.map fun arg => arg.toInt.repr) ++ ");"

instance : HasCode InputVector := ⟨code⟩

/-- A tenth of the width of the bounds, but at least one. -/
def stepWidth (vector : InputVector) : Except Fault Float := do
  let width ← Checked.sub vector.high vector.low
  let tenth := .ofInt width.toInt / 10.0
  return if tenth < 1.0 then 1.0 else tenth

variable {ρ : Type} [RandomSource ρ]

/-- A step up or down by one, with even chances. -/
def unitStep : Draw ρ Int64 := do
  return if ← Draw.bernoulli 0.5 then 1 else -1

/-- An argument after a step, kept between the bounds. If it would stay where it is, the step is
taken in the other direction. -/
def step (vector : InputVector) (old delta : Int64) : Except Fault Int64 := do
  let moved ← Checked.clamp vector.low vector.high (Checked.saturatingAdd old delta)
  if moved = old then
    Checked.clamp vector.low vector.high (Checked.saturatingSub old delta)
  else return moved

/-- Moves one argument by a normal step, rounded to an integer and never zero. A vector without
arguments stays as it is and takes no draw. -/
def mutate (vector : InputVector) : Draw ρ InputVector := do
  if vector.args.isEmpty then return vector
  let i ← Draw.below vector.args.length
  let noise ← Draw.normal
  let width ← ofExcept vector.stepWidth
  let rounded := (noise * width).round.toInt64
  let delta ← if rounded = 0 then unitStep else pure rounded
  match vector.args[i]? with
  | none => throw (.indexOutOfBounds vector.args.length i)
  | some old =>
    let moved ← ofExcept (vector.step old delta)
    return { vector with args := vector.args.set i moved }

/-- Exchanges what lies behind a cut in the argument lists of two calls of one function with as
many arguments. The cut leaves something on both sides when there are two arguments or more;
otherwise the whole lists are exchanged. Functions and bounds stay. -/
def crossover (a b : InputVector) : Draw ρ (Crossing InputVector) := do
  if a.args.length ≠ b.args.length then
    return ⟨a, b, some ⟨"arity mismatch: " ++ a.args.length.repr ++ " vs " ++ b.args.length.repr⟩⟩
  if a.function ≠ b.function then
    return ⟨a, b, some ⟨"cannot cross " ++ a.function ++ " with " ++ b.function⟩⟩
  let cut ← if 1 < a.args.length then (· + 1) <$> Draw.below (a.args.length - 1) else pure 0
  return ⟨{ a with args := a.args.take cut ++ b.args.drop cut },
    { b with args := b.args.take cut ++ a.args.drop cut }, none⟩

instance : Variation ρ InputVector := ⟨mutate, crossover⟩

end InputVector

end WitnessSearch
