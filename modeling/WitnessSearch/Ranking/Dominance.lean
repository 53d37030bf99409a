import WitnessSearch.Fault

/-! Domination between rows of fitness values. Smaller is better, so a row dominates another when it
is nowhere larger and somewhere smaller. What is not a number is neither larger nor smaller than
anything. The relation is therefore irreflexive and asymmetric for all rows, but only among rows of
numbers transitive. -/

namespace WitnessSearch

/-- Domination with the knowledge whether a smaller component was already seen. The components
beyond the shorter row do not count. -/
def dominatesFrom : Bool → List Float → List Float → Bool
  | better, x :: xs, y :: ys => if y < x then false else dominatesFrom (better || x < y) xs ys
  | better, _, _ => better

/-- Whether the first row is nowhere larger and somewhere smaller than the second. -/
def dominates (a b : List Float) : Bool :=
  dominatesFrom false a b

/-- Domination between rows that have to agree in length. -/
def checkedDominates (a b : List Float) : Except Fault Bool :=
  if a.length = b.length then .ok (dominates a b) else .error .unequalLengths

end WitnessSearch
