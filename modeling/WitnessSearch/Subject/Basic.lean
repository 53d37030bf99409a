import WitnessSearch.InputVector.Factory
import WitnessSearch.Subject.Trace

/-! Subjects: small instrumented programs over integers whose capture points are the goals to cover.
-/

namespace WitnessSearch

/-- A place in a subject that reports the values it sees. -/
structure CapturePoint where
  id : String
  line : UInt32
deriving DecidableEq

structure Subject where
  name : String
  unit : String
  function : String
  arity : Nat
  /-- The least argument that inputs are drawn from. -/
  low : Int64
  /-- The largest argument that inputs are drawn from. -/
  high : Int64
  points : List CapturePoint
  /-- The program. It is only run on argument lists of the subject's arity. -/
  body : List Int64 → Except Fault Trace

namespace Subject

def goals (subject : Subject) : List Goal :=
  subject.points.map fun point => .located point.id subject.unit subject.function point.line

/-- Runs the program. The number of arguments has to be the arity. -/
def run (subject : Subject) (args : List Int64) : Except Fault Trace :=
  if args.length = subject.arity then subject.body args else .error .unequalLengths

def inputFactory (subject : Subject) : InputFactory :=
  ⟨subject.function, subject.arity, subject.low, subject.high, none⟩

end Subject

end WitnessSearch
