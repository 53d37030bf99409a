import WitnessSearch.Subject.Basic

/-! The four subjects. Each program reaches its capture points as the instrumented one would. For
the points it misses it records by how much the guarding conditions were missed. The comparisons and
sums that the programs make are exact and a fault where they leave the 64-bit range, except in the
linear loop, where the arithmetic wraps. -/

namespace WitnessSearch.Subject

open Checked

def missingToLess (left right : Int64) : Except Fault Float := do
  if left < right then return 0.0
  return .ofInt (← add (← sub left right) 1).toInt

def missingToAtMost (left right : Int64) : Except Fault Float := do
  if left ≤ right then return 0.0
  return .ofInt (← sub left right).toInt

namespace LessThan

def trueBranch : String := "A_LT_B$a_lt_b_truebranch"
def falseBranch : String := "A_LT_B$a_lt_b_falsebranch"
def exit : String := "A_LT_B$a_lt_b_end"

/-- One point in each branch of a comparison and one behind it. -/
def run (a b : Int64) : Except Fault Trace := do
  let trace ← if a < b then
      pure <| (Trace.empty.capture trueBranch [a, b]).distance falseBranch (← missingToAtMost b a)
    else
      pure <| (Trace.empty.capture falseBranch [a, b]).distance trueBranch (← missingToLess a b)
  return trace.capture exit [a, b]

end LessThan

def lessThan : Subject where
  name := "less_than"
  unit := "Checks"
  function := "check_lt"
  arity := 2
  low := -100
  high := 100
  points := [⟨LessThan.trueBranch, 7⟩, ⟨LessThan.falseBranch, 11⟩, ⟨LessThan.exit, 16⟩]
  body
    | [a, b] => LessThan.run a b
    | _ => .error .unequalLengths

namespace Triangle

def accepted : String := "triangle_ok"
def rejectedThird : String := "triangle_not_ok_ab_ac_ok"
def rejectedSecond : String := "triangle_not_ok_ab_ok"
def rejectedFirst : String := "triangle_not_ok"

/-- The run behind the first two inequalities: the third one accepts or rejects. -/
def decide (a bc : Int64) (values : List Int64) : Except Fault Trace := do
  if a < bc then
    return (Trace.empty.capture accepted values).distance rejectedThird (← missingToAtMost bc a)
  else
    return (Trace.empty.capture rejectedThird values).distance accepted (← missingToLess a bc)

def decideSecond (a b ac bc : Int64) (values : List Int64) : Except Fault Trace := do
  if b < ac then
    let trace ← decide a bc values
    return trace.distance rejectedSecond (← missingToAtMost ac b)
  else
    let missing ← missingToLess b ac
    return ((Trace.empty.capture rejectedSecond values).distance accepted missing).distance
      rejectedThird missing

/-- The triangle inequality for each pair of sides, one after the other. -/
def run (a b c : Int64) : Except Fault Trace := do
  let ab ← add a b
  let ac ← add a c
  let bc ← add b c
  let values := [a, b, c, ab, ac, bc]
  if c < ab then
    let trace ← decideSecond a b ac bc values
    return trace.distance rejectedFirst (← missingToAtMost ab c)
  else
    let missing ← missingToLess c ab
    return (((Trace.empty.capture rejectedFirst values).distance accepted missing).distance
      rejectedThird missing).distance rejectedSecond missing

end Triangle

def triangle : Subject where
  name := "triangle"
  unit := "TriangleCheck"
  function := "check_triangle"
  arity := 3
  low := -50
  high := 50
  points := [⟨Triangle.accepted, 11⟩, ⟨Triangle.rejectedThird, 15⟩, ⟨Triangle.rejectedSecond, 21⟩,
    ⟨Triangle.rejectedFirst, 26⟩]
  body
    | [a, b, c] => Triangle.run a b c
    | _ => .error .unequalLengths

namespace BindExpands

def entry : String := "BindExpandsVars2$funcstart"
def loop : String := "BindExpandsVars2$loopinvariant"

/-- What is missing for the conditions before the entry, summed over the conditions in order. -/
def guard (offset n1 n2 maxData : Int64) : Except Fault Float := do
  let d1 ← missingToAtMost 0 maxData
  let d2 ← missingToAtMost 0 n1
  let d3 ← missingToAtMost 0 n2
  let d4 ← missingToAtMost 0 offset
  let d5 ← missingToAtMost n1 (← mul maxData 2)
  let d6 ← missingToAtMost offset n1
  let d7 ← missingToAtMost n2 (← sub (← mul maxData 2) n1)
  return d1 + d2 + d3 + d4 + d5 + d6 + d7

/-- The run behind the guard: the entry and then every turn of the loop. -/
def enter (offset n1 n2 maxData : Int64) : Except Fault Trace := do
  let trace := Trace.empty.capture entry [offset, n1, n2, maxData]
  let trace ← if n2 ≤ 0 then pure (trace.distance loop (← missingToLess 0 n2)) else pure trace
  return (List.range n2.toInt.toNat).foldl
    (fun trace i => trace.capture loop [Int64.ofNat i, offset, maxData]) trace

def run (offset n1 n2 maxData : Int64) : Except Fault Trace := do
  let missing ← guard offset n1 n2 maxData
  if 0.0 < missing then
    let trace := Trace.empty.distance entry missing
    return trace.distance loop (missing + (← missingToLess 0 n2))
  else enter offset n1 n2 maxData

end BindExpands

def bindExpands : Subject where
  name := "bind_expands_vars2"
  unit := "Checks"
  function := "BindExpandsVars2"
  arity := 4
  low := -20
  high := 40
  points := [⟨BindExpands.entry, 40⟩, ⟨BindExpands.loop, 45⟩]
  body
    | [offset, n1, n2, maxData] => BindExpands.run offset n1 n2 maxData
    | _ => .error .unequalLengths

namespace LinearLoop

def exit : String := "exitmethod"

def turn (condition : Int64) (state : Int64 × Int64) : Int64 × Int64 :=
  let (xa, ya) := state
  let x := xa + ya * 2 + 1
  let y := ya - xa * 2
  let y := if 0 < condition then y + x else y - x
  (x - y * 2, x * 2 + y)

def turns (condition : Int64) : Nat → Int64 × Int64 → Int64 × Int64
  | 0, state => state
  | count + 1, state => turns condition count (turn condition state)

def run (outer condition xa ya : Int64) : Trace :=
  let (xa, ya) := turns condition outer.toInt.toNat (xa, ya)
  Trace.empty.capture exit [xa, ya]

end LinearLoop

def linearLoop : Subject where
  name := "ex1"
  unit := "Ex1"
  function := "ex1"
  arity := 4
  low := -10
  high := 10
  points := [⟨LinearLoop.exit, 24⟩]
  body
    | [outer, condition, xa, ya] => .ok (LinearLoop.run outer condition xa ya)
    | _ => .error .unequalLengths

def all : List Subject :=
  [lessThan, triangle, bindExpands, linearLoop]

def byName? (name : String) : Option Subject :=
  all.find? (·.name = name)

end WitnessSearch.Subject
