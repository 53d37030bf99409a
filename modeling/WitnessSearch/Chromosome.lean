import WitnessSearch.Random.Source

/-! Candidates of the search. A candidate is a single test or a suite of tests. What a test is
belongs to the caller: the archive, the cache and the evaluator only ask for its code, and breeding
asks for mutation and crossover on top. Two tests with one code count as the same test. The
fingerprint of a candidate is made from the codes of its tests. -/

namespace WitnessSearch

/-- The identity of a candidate as far as caching and suites are concerned. -/
structure Fingerprint where
  text : String
deriving DecidableEq, Hashable, Inhabited

/-- Why two candidates could not be crossed. -/
structure ConstructionFailure where
  reason : String
deriving DecidableEq

def ConstructionFailure.message (failure : ConstructionFailure) : String :=
  "Construction failed: " ++ failure.reason

/-- Tests that can be written down. -/
class HasCode (τ : Type) where
  code : τ → String

/-- What a crossover leaves behind: both operands after it, and the failure if it did not work out.
An operator may have changed its operands before it failed. -/
structure Crossing (α : Type) where
  first : α
  second : α
  failure : Option ConstructionFailure

/-- Tests that can be varied with words from a source. -/
class Variation (ρ τ : Type) where
  mutate : τ → Draw ρ τ
  crossover : τ → τ → Draw ρ (Crossing τ)

/-- A candidate of the search. -/
inductive Chromosome (τ : Type) where
  | single (test : τ)
  | suite (tests : List τ)
deriving DecidableEq

namespace Chromosome

variable {ρ τ : Type}

def tests : Chromosome τ → List τ
  | single test => [test]
  | suite tests => tests

def size (chromosome : Chromosome τ) : Nat :=
  chromosome.tests.length

def codes [HasCode τ] (chromosome : Chromosome τ) : List String :=
  chromosome.tests.map HasCode.code

/-- A single test has its code as fingerprint. A suite frames the codes of its tests. -/
def fingerprint [HasCode τ] : Chromosome τ → Fingerprint
  | single test => ⟨HasCode.code test⟩
  | suite tests =>
    ⟨r"suite {" ++ "\n" ++ String.intercalate "\n\n" (tests.map HasCode.code) ++ "\n" ++ r"}"⟩

variable [RandomSource ρ] [Variation ρ τ]

def mutateTest (probability : Float) (test : τ) : Draw ρ τ := do
  if ← Draw.bernoulli probability then Variation.mutate test else pure test

/-- Mutates a single test. Each test of a suite is mutated with one over the size of the suite as
probability, and an empty suite takes no draw. -/
def mutate : Chromosome τ → Draw ρ (Chromosome τ)
  | single test => do return single (← Variation.mutate test)
  | suite tests => do
    return suite (← tests.mapM (mutateTest (1.0 / Float.ofNat tests.length)))

/-- Crosses two single tests by the operator of the tests, and two suites by exchanging what lies
behind a cut point in each. Empty suites and candidates of different kinds cannot be crossed. -/
def crossover : Chromosome τ → Chromosome τ → Draw ρ (Crossing (Chromosome τ))
  | single a, single b => do
    let crossing ← Variation.crossover a b
    return ⟨single crossing.first, single crossing.second, crossing.failure⟩
  | suite a, suite b => do
    if a.isEmpty || b.isEmpty then
      return ⟨suite a, suite b, some ⟨"cannot cross an empty suite"⟩⟩
    let cutA ← Draw.below (a.length + 1)
    let cutB ← Draw.below (b.length + 1)
    return ⟨suite (a.take cutA ++ b.drop cutB), suite (b.take cutB ++ a.drop cutA), none⟩
  | a, b => return ⟨a, b, some ⟨"cannot cross an individual with a suite"⟩⟩

end Chromosome

/-- A source of fresh candidates. -/
structure Factory (ρ τ : Type) where
  /-- A candidate drawn without a goal in mind. -/
  fresh : Draw ρ (Chromosome τ)
  /-- A candidate drawn for a goal. -/
  biased : Goal → Draw ρ (Chromosome τ) := fun _ => fresh

end WitnessSearch
