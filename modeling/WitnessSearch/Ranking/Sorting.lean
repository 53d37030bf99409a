import WitnessSearch.Fault

/-! Stable sorting by insertion from the left. Each element moves towards the front past the
elements it is less than and stops at the first it is not. For a strict weak order this is the
stable ascending order. The sort is also defined when the comparison is none, as with numbers among
which some are not numbers: what cannot be compared does not move. -/

namespace WitnessSearch

/-- Inserts an element into a list that is written backwards. -/
def insertFromBack {α : Type} (less : α → α → Bool) (x : α) : List α → List α
  | [] => [x]
  | last :: before =>
    if less x last then last :: insertFromBack less x before else x :: last :: before

def stableSort {α : Type} (less : α → α → Bool) (xs : List α) : List α :=
  (xs.foldl (fun sorted x => insertFromBack less x sorted) []).reverse

/-- Up to this many elements are sorted by insertion, whatever their keys are. -/
def insertionLimit : Nat := 20

/-- Whether keys have a common order. What is not a number counts as equal to every key, which is
consistent only where no key is less than another. -/
def areOrdered (keys : List Float) : Bool :=
  keys.all (fun key => !key.isNaN) || keys.all fun a => keys.all fun b => !decide (a < b)

/-- The stable order of a list by keys, where `before` compares the keys. -/
def sortByKey {α : Type} (before : Float → Float → Bool) (key : α → Float) (xs : List α) :
    Except Fault (List α) :=
  if xs.length ≤ insertionLimit ∨ areOrdered (xs.map key) then
    .ok (stableSort (fun a b => before (key a) (key b)) xs)
  else .error .unorderedKeys

end WitnessSearch
