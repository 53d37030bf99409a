import WitnessSearch.Archive.Basic

/-! What is told of an archive to the outside: how far each goal is covered, and the record that is
saved. Both list the registered goals in ascending order. A record keeps of a candidate only the
codes of its tests. -/

namespace WitnessSearch

/-- How far a goal is covered. -/
structure GoalCoverage where
  goal : Goal
  witnesses : Nat
  target : Nat
  covered : Bool
deriving DecidableEq

def Archive.coverage {τ : Type} (archive : Archive τ) : List GoalCoverage :=
  archive.entries.map fun (goal, held) =>
    ⟨goal, held.length, archive.target, archive.target ≤ held.length⟩

/-- A witness as it is saved. -/
structure WitnessRecord where
  /-- The codes of the tests. -/
  code : List String
  observation : Observation
  generation : Nat

/-- A goal with its witnesses as it is saved. -/
structure GoalRecord where
  goal : Goal
  covered : Bool
  witnesses : List WitnessRecord

/-- An archive as it is saved. -/
structure ArchiveRecord where
  target : Nat
  goals : List GoalRecord

def Archive.record {τ : Type} [HasCode τ] (archive : Archive τ) : ArchiveRecord where
  target := archive.target
  goals := archive.entries.map fun (goal, held) =>
    ⟨goal, archive.target ≤ held.length, held.map fun witness =>
      ⟨witness.chromosome.codes, witness.observation, witness.generation⟩⟩

end WitnessSearch
