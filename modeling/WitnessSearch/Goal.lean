/-! Coverage goals. A goal names one capture point of a program under test by an id and the place
the point stands at. Goals are compared as a whole, so two points that share an id at different
lines are two goals. The order is lexicographic in id, unit, function and line; it is the order in
which the archive lists its goals and the search visits them. -/

namespace WitnessSearch

/-- Where the capture point of a goal stands. -/
structure Location where
  /-- The enclosing unit, such as a class or module. -/
  unit : String
  /-- The enclosing function. -/
  function : String
  line : UInt32
deriving DecidableEq, Hashable, Inhabited

namespace Location

/-- Units are compared first, then functions, then lines. Strings are compared by code point. -/
def order (a b : Location) : Ordering :=
  (compare a.unit b.unit).then ((compare a.function b.function).then (compare a.line b.line))

instance : Ord Location := ⟨order⟩

end Location

structure Goal where
  /-- The id the instrumented program reports the point under. -/
  id : String
  location : Location
deriving DecidableEq, Hashable, Inhabited

namespace Goal

/-- The goal for the capture point `id` at a line of a function in a unit. -/
def located (id unit function : String) (line : UInt32) : Goal :=
  ⟨id, ⟨unit, function, line⟩⟩

def order (a b : Goal) : Ordering :=
  (compare a.id b.id).then (compare a.location b.location)

instance : Ord Goal := ⟨order⟩

def describe (goal : Goal) : String :=
  goal.id ++ " (" ++ goal.location.unit ++ "::" ++ goal.location.function ++ ":" ++
    goal.location.line.toNat.repr ++ ")"

/-- Inserts a goal into an ascending list, unless it is already there. -/
def insertSorted (goal : Goal) : List Goal → List Goal
  | [] => [goal]
  | next :: rest =>
    match order goal next with
    | .lt => goal :: next :: rest
    | .eq => next :: rest
    | .gt => next :: insertSorted goal rest

def ascending (goals : List Goal) : List Goal :=
  goals.foldl (fun sorted goal => insertSorted goal sorted) []

end Goal

end WitnessSearch
