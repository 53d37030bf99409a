import WitnessSearch.Observation

/-! What one run of an instrumented program leaves behind. The program reports the values it sees at
the capture points it reaches, and for points it misses how far it was from reaching them. All
captures are kept in order; of the distances only the least is kept for each point. -/

namespace WitnessSearch

/-- The values seen at a capture point. -/
structure Capture where
  id : String
  values : List Int64

structure Trace where
  /-- The captures in the order of the run. -/
  captures : Array Capture
  /-- The least distance towards each point that has one. -/
  distances : List (String × Float)

namespace Trace

def empty : Trace :=
  ⟨#[], []⟩

def capture (trace : Trace) (id : String) (values : List Int64) : Trace :=
  { trace with captures := trace.captures.push ⟨id, values⟩ }

/-- A distance as it counts. What is not positive, and what is not a number, counts as zero. -/
def slack (distance : Float) : Float :=
  if 0.0 < distance then distance else 0.0

def bestDistance (trace : Trace) (id : String) : Option Float :=
  trace.distances.lookup id

def setDistance (id : String) (distance : Float) : List (String × Float) → List (String × Float)
  | [] => [(id, distance)]
  | (known, best) :: rest =>
    if id = known then (id, distance) :: rest else (known, best) :: setDistance id distance rest

/-- Records how far the run was from a point. A larger distance than the recorded one has no
effect. -/
def distance (trace : Trace) (id : String) (distance : Float) : Trace :=
  let slack := slack distance
  let least := match trace.bestDistance id with
    | some best => if slack < best then slack else best
    | none => slack
  { trace with distances := setDistance id least trace.distances }

def hit (trace : Trace) (id : String) : Bool :=
  trace.captures.any (·.id = id)

def firstCapture (trace : Trace) (id : String) : Option (List Int64) :=
  (trace.captures.find? (·.id = id)).map (·.values)

def captureCount (trace : Trace) (id : String) : Nat :=
  trace.captures.countP (·.id = id)

end Trace

end WitnessSearch
