import WitnessSearch.Execution

/-! The archive of witnesses. For every registered goal it holds up to a target number of accepted
witnesses, no two of which have equal observations. An offer is either accepted, and then the
witness is added at the end of the goal's list, or rejected, and then nothing changes. Witnesses are
never removed. The goals are kept in ascending order, each once. -/

namespace WitnessSearch

/-- A candidate that was accepted for a goal. -/
structure Witness (τ : Type) where
  chromosome : Chromosome τ
  fingerprint : Fingerprint
  observation : Observation
  /-- The generation of the offer. -/
  generation : Nat

/-- Why an offer was turned down. -/
inductive Rejection where
  /-- An equal observation is held for the goal. -/
  | duplicate
  /-- The goal holds its target number of witnesses. -/
  | full
deriving DecidableEq

/-- The answer to an offer. -/
inductive Admission where
  /-- The witness is held from now on. `covered` says whether it was the last one the goal
  needed. -/
  | accepted (covered : Bool)
  | rejected (reason : Rejection)
deriving DecidableEq

structure Archive (τ : Type) where
  /-- How many witnesses each goal needs. -/
  target : Nat
  /-- The registered goals, ascending, with their witnesses in the order of acceptance. -/
  entries : List (Goal × List (Witness τ))

namespace Archive

variable {τ : Type}

def new (target : Nat) : Except Fault (Archive τ) :=
  if target = 0 then .error .zeroTarget else .ok ⟨target, []⟩

def goals (archive : Archive τ) : List Goal :=
  archive.entries.map (·.1)

/-- The witnesses of a goal in the order of acceptance. A goal that is not registered has none. -/
def witnesses (archive : Archive τ) (goal : Goal) : List (Witness τ) :=
  (archive.entries.lookup goal).getD []

def isRegistered (archive : Archive τ) (goal : Goal) : Bool :=
  (archive.entries.lookup goal).isSome

/-- Gives a goal a list of witnesses, in its place among the ascending goals. -/
def place (goal : Goal) (witnesses : List (Witness τ)) :
    List (Goal × List (Witness τ)) → List (Goal × List (Witness τ))
  | [] => [(goal, witnesses)]
  | (next, held) :: rest =>
    match Goal.order goal next with
    | .lt => (goal, witnesses) :: (next, held) :: rest
    | .eq => (goal, witnesses) :: rest
    | .gt => (next, held) :: place goal witnesses rest

/-- Registers a goal and says whether it was new. The witnesses of a known goal stay. -/
def register (archive : Archive τ) (goal : Goal) : Bool × Archive τ :=
  if archive.isRegistered goal then (false, archive)
  else (true, { archive with entries := place goal [] archive.entries })

/-- Offers a candidate as a witness. A missing observation counts as the empty one. Whether an
equal observation is held is looked at before the number of witnesses, so an observation that is
offered again to a covered goal is a duplicate. A goal that is not registered is registered. -/
def offer [HasCode τ] (archive : Archive τ) (goal : Goal) (chromosome : Chromosome τ)
    (observation : Option Observation) (generation : Nat) : Admission × Archive τ :=
  let archive := (archive.register goal).2
  let observation := observation.getD .empty
  let held := archive.witnesses goal
  if held.any (·.observation == observation) then (.rejected .duplicate, archive)
  else if archive.target ≤ held.length then (.rejected .full, archive)
  else
    let witness := ⟨chromosome, chromosome.fingerprint, observation, generation⟩
    let entries := place goal (held ++ [witness]) archive.entries
    (.accepted (held.length + 1 = archive.target), { archive with entries })

def witnessCount (archive : Archive τ) (goal : Goal) : Nat :=
  (archive.witnesses goal).length

/-- Whether a goal holds its target number of witnesses. -/
def isCovered (archive : Archive τ) (goal : Goal) : Bool :=
  archive.target ≤ archive.witnessCount goal

/-- The registered goals that are short of witnesses, ascending. -/
def remainingGoals (archive : Archive τ) : List Goal :=
  (archive.entries.filter fun (_, held) => held.length < archive.target).map (·.1)

/-- The registered goals that are not short of witnesses, ascending. -/
def coveredGoals (archive : Archive τ) : List Goal :=
  (archive.entries.filter fun (_, held) => archive.target ≤ held.length).map (·.1)

def isFull (archive : Archive τ) : Bool :=
  archive.entries.all fun (_, held) => archive.target ≤ held.length

/-- The least number of witnesses of a registered goal, or zero without goals. -/
def minCoverage (archive : Archive τ) : Nat :=
  ((archive.entries.map fun (_, held) => held.length).min?).getD 0

def allWitnesses (archive : Archive τ) : List (Witness τ) :=
  archive.entries.flatMap (·.2)

def size (archive : Archive τ) : Nat :=
  archive.entries.foldl (fun total (_, held) => total + held.length) 0

def isEmpty (archive : Archive τ) : Bool :=
  archive.size = 0

/-- How many witnesses have a fingerprint, over all goals. -/
def appearanceCount (archive : Archive τ) (fingerprint : Fingerprint) : Nat :=
  archive.allWitnesses.countP fun witness => witness.fingerprint = fingerprint

/-- The tests whose code is neither in `seen` nor that of an earlier test. -/
def distinctTests [HasCode τ] (seen : List String) : List τ → List τ
  | [] => []
  | test :: rest =>
    if HasCode.code test ∈ seen then distinctTests seen rest
    else test :: distinctTests (HasCode.code test :: seen) rest

/-- The tests of all witnesses, goal by goal, each code once. -/
def suite [HasCode τ] (archive : Archive τ) : List τ :=
  distinctTests [] (archive.allWitnesses.flatMap (·.chromosome.tests))

end Archive

end WitnessSearch
