import WitnessSearch.Proofs.Config
import WitnessSearch.Proofs.Evaluation.Faults
import WitnessSearch.Proofs.Random.Draws
import WitnessSearch.Proofs.Ranking.Distances
import WitnessSearch.Search.Parents

/-! Breeding from good candidates. Children of good candidates are good, whether or not they are
crossed and mutated, as long as the operators of the tests keep to good tests. A parent can always
be selected when there is one and the scores are numbers. -/

namespace WitnessSearch

open Draw FloatRounding

variable {ρ τ : Type} [RandomSource ρ]

/-- The surroundings of a search do not go wrong on good tests. What they draw or make from good
tests is good, and they end in none but the given faults. An execution fits the goal, whatever
candidate it is of. -/
structure Problem.Sturdy [HasCode τ] [Variation ρ τ] (problem : Problem ρ τ) (faults : Fault → Prop)
    (good : τ → Prop) (arity : Goal → Nat) : Prop where
  endless : faults .endlessRejection
  fresh : Yields faults problem.factory.fresh (Chromosome.Wholly good)
  biased : ∀ goal, Yields faults (problem.factory.biased goal) (Chromosome.Wholly good)
  mutate : ∀ test, good test → Yields faults (Variation.mutate test : Draw ρ τ) good
  crossover : ∀ first second, good first → good second →
    Yields faults (Variation.crossover first second : Draw ρ (Crossing τ)) fun crossing =>
      crossing.failure = none → good crossing.first ∧ good crossing.second
  execute : ∀ chromosome : Chromosome τ, chromosome.Wholly good → ∀ goal fault,
    problem.executor.execute chromosome goal = .error fault → faults fault
  fits : ∀ chromosome goal execution,
    problem.executor.execute chromosome goal = .ok (.ok execution) → execution.Fits (arity goal)

/-- The operators of the tests do not go wrong on good tests. What they make of good tests is good,
and they end in none but the given faults. -/
structure Operators (ρ : Type) {τ : Type} [RandomSource ρ] [Variation ρ τ] (faults : Fault → Prop)
    (good : τ → Prop) : Prop where
  endless : faults .endlessRejection
  mutate : ∀ test, good test → Yields faults (Variation.mutate test : Draw ρ τ) good
  crossover : ∀ first second, good first → good second →
    Yields faults (Variation.crossover first second : Draw ρ (Crossing τ)) fun crossing =>
      crossing.failure = none → good crossing.first ∧ good crossing.second

/-- The operators of a sturdy problem are those of its factory. -/
theorem Problem.Sturdy.operators [HasCode τ] [Variation ρ τ] {problem : Problem ρ τ}
    {faults : Fault → Prop} {good : τ → Prop} {arity : Goal → Nat}
    (h : problem.Sturdy faults good arity) : Operators ρ faults good where
  endless := h.endless
  mutate := h.mutate
  crossover := h.crossover

namespace Operators

variable [Variation ρ τ] {faults : Fault → Prop} {good : τ → Prop} (h : Operators ρ faults good)
include h

/-- Mutating a test with a chance leads from good tests to good tests. -/
theorem yields_mutateTest {probability : Float} (hChance : IsChance probability) {test : τ}
    (hGood : good test) :
    Yields faults (Chromosome.mutateTest probability test : Draw ρ τ) good := by
  refine Guards.bind (yields_bernoulli hChance) fun mutates _ => ?_
  split
  · exact h.mutate test hGood
  · exact Guards.pure hGood

/-- Mutation leads from good chromosomes to good ones, test by test. -/
theorem yields_mutate {chromosome : Chromosome τ} (hGood : chromosome.Wholly good) :
    Yields faults (chromosome.mutate : Draw ρ (Chromosome τ)) (Chromosome.Wholly good) := by
  cases chromosome with
  | single test =>
      refine Guards.bind (h.mutate test (hGood test List.mem_cons_self)) fun mutant hMutant => ?_
      exact Guards.pure (List.forall_mem_singleton.mpr hMutant)
  | suite tests =>
      have hTest : ∀ test ∈ tests, Yields faults (Chromosome.mutateTest
          (1.0 / Float.ofNat tests.length) test : Draw ρ τ) good := fun test hMem =>
        h.yields_mutateTest (isChance_inverse (List.length_pos_of_mem hMem)) (hGood test hMem)
      refine Guards.bind (Guards.mapM hTest) fun mutants hMutants =>
        Guards.pure fun mutant hMem => ?_
      obtain ⟨_, -, hMutant⟩ := exists_left_of_related hMutants hMem
      exact hMutant

/-- Crossing single tests is left to the tests, and suites only exchange tests. -/
theorem yields_crossover {first second : Chromosome τ} (hFirst : first.Wholly good)
    (hSecond : second.Wholly good) :
    Yields faults (first.crossover second : Draw ρ (Crossing (Chromosome τ))) fun crossing =>
      crossing.failure = none →
        crossing.first.Wholly good ∧ crossing.second.Wholly good := by
  have hApart : ∀ (a b : Chromosome τ) (failure : ConstructionFailure),
      Yields faults (pure ⟨a, b, some failure⟩ : Draw ρ (Crossing (Chromosome τ))) fun crossing =>
        crossing.failure = none →
          crossing.first.Wholly good ∧ crossing.second.Wholly good :=
    fun _ _ _ => Guards.pure nofun
  have hExchange : ∀ {a b : List τ} (i j : Nat), (∀ test ∈ a, good test) →
      (∀ test ∈ b, good test) → ∀ test ∈ a.take i ++ b.drop j, good test := by
    intro a b i j hA hB test hMem
    rcases List.mem_append.mp hMem with hTaken | hDropped
    · exact hA test (List.mem_of_mem_take hTaken)
    · exact hB test (List.mem_of_mem_drop hDropped)
  cases first with
  | single a =>
      cases second with
      | single b =>
          refine Guards.bind (h.crossover a b (hFirst a List.mem_cons_self)
            (hSecond b List.mem_cons_self)) fun crossing hCrossing => Guards.pure fun hDone => ?_
          obtain ⟨hOne, hOther⟩ := hCrossing hDone
          exact ⟨List.forall_mem_singleton.mpr hOne, List.forall_mem_singleton.mpr hOther⟩
      | suite b => exact hApart _ _ _
  | suite a =>
      cases second with
      | single b => exact hApart _ _ _
      | suite b =>
          unfold Chromosome.crossover
          dsimp only
          split
          · exact hApart _ _ _
          · refine Guards.bind (yields_below h.endless (Nat.succ_pos _)) fun i _ => ?_
            refine Guards.bind (yields_below h.endless (Nat.succ_pos _)) fun j _ => ?_
            exact Guards.pure fun _ => ⟨hExchange i j hFirst hSecond, hExchange j i hSecond hFirst⟩

/-- A child stays good whether it is mutated or not. -/
theorem yields_mutateChild {rate : Float} (hRate : 0.0 ≤ rate ∧ rate ≤ 1.0)
    {child : Chromosome τ} (hGood : child.Wholly good) :
    Yields faults (Search.mutateChild rate child : Draw ρ (Chromosome τ))
      (Chromosome.Wholly good) := by
  refine Guards.bind (yields_chance hRate.1 hRate.2) fun mutates _ => ?_
  split
  · exact h.yields_mutate hGood
  · exact Guards.pure hGood

/-- Crossing good parents gives good ones. Where the crossover fails, the parents themselves go on.
-/
theorem yields_crossParents {rate : Float} (hRate : 0.0 ≤ rate ∧ rate ≤ 1.0)
    {first second : Chromosome τ} (hFirst : first.Wholly good) (hSecond : second.Wholly good) :
    Yields faults (Search.crossParents rate first second : Draw ρ (Chromosome τ × Chromosome τ))
      fun pair => pair.1.Wholly good ∧ pair.2.Wholly good := by
  refine Guards.bind (yields_chance hRate.1 hRate.2) fun crosses _ => ?_
  split
  · refine Guards.bind (h.yields_crossover hFirst hSecond) fun crossing hCrossing => ?_
    split
    · rename_i hDone
      exact Guards.pure (hCrossing hDone)
    · exact Guards.pure ⟨hFirst, hSecond⟩
  · exact Guards.pure ⟨hFirst, hSecond⟩

/-- Good parents have good children, under any rates that were validated. -/
theorem yields_children {config : Config} (hConfig : config.validate = .ok ())
    {first second : Chromosome τ} (hFirst : first.Wholly good) (hSecond : second.Wholly good) :
    Yields faults (Search.children config first second : Draw ρ (Chromosome τ × Chromosome τ))
      fun pair => pair.1.Wholly good ∧ pair.2.Wholly good := by
  have hValid := Config.validate_eq_ok_iff.mp hConfig
  refine Guards.bind (h.yields_crossParents hValid.crossoverRate hFirst hSecond)
    fun pair hPair => ?_
  refine Guards.bind (h.yields_mutateChild hValid.mutationRate hPair.1) fun a hA => ?_
  refine Guards.bind (h.yields_mutateChild hValid.mutationRate hPair.2) fun b hB => ?_
  exact Guards.pure ⟨hA, hB⟩

end Operators

namespace Search

section Selection

/-- The weights of so many candidates can be counted, or it is one of the faults that they cannot.
-/
def HasWeights (faults : Fault → Prop) (count : Nat) : Prop :=
  count * (count + 1) < Checked.countLimit ∨ faults .countOverflow

omit [RandomSource ρ] in
/-- Only a count whose product does not fit stops a choice by rank, and this is then a fault that is
expected. -/
theorem HasWeights.of_mulCounts {faults : Fault → Prop} {count : Nat}
    (h : HasWeights faults count) {fault : Fault}
    (hFault : Checked.mulCounts count (count + 1) = .error fault) : faults fault := by
  obtain ⟨hMany, rfl⟩ := Checked.of_mulCounts_eq_error hFault
  exact h.resolve_left (Nat.not_lt.mpr hMany)

omit [RandomSource ρ] in
/-- Fewer candidates have fewer weights. -/
theorem HasWeights.mono {faults : Fault → Prop} {count few : Nat} (h : HasWeights faults count)
    (hFew : few ≤ count) : HasWeights faults few :=
  h.imp_left fun hFits =>
    (Nat.mul_le_mul hFew (Nat.add_le_add_right hFew 1)).trans_lt hFits

variable {faults : Fault → Prop} (hEndless : faults .endlessRejection) {scores : Array Float}
  (hSome : 0 < scores.size)
include hEndless hSome

/-- The winner of a tournament is one of the contestants. -/
theorem yields_tournament (rounds : Nat) {best : Nat} (hBest : best < scores.size) :
    Yields faults (tournament scores rounds best : Draw ρ Nat) (· < scores.size) := by
  induction rounds generalizing best with
  | zero => exact Guards.pure hBest
  | succ rounds ih =>
      refine Guards.bind (yields_index hEndless hSome) fun contestant hContestant => ?_
      have hFetch : ∀ {i}, (hi : i < scores.size) → Checked.fetch scores i = .ok scores[i] :=
        fun hi => by rw [Checked.fetch, Array.getElem?_eq_getElem hi]
      refine Confines.ofExcept_bind (hFetch hContestant) ?_
      refine Confines.ofExcept_bind (hFetch hBest) ?_
      apply ih
      split
      · exact hContestant
      · exact hBest

omit [RandomSource ρ] hEndless hSome in
theorem perm_of_byScore {order : List Nat} (h : byScore scores = .ok order) :
    order.Perm (List.range scores.size) := by
  unfold byScore sortByKey at h
  split at h
  · cases h
    exact perm_stableSort _ _
  · cases h

omit [RandomSource ρ] hEndless hSome in
/-- What is found at a weight is an index of the order, or the fallback. -/
theorem atWeight_mem {fallback target : Nat} {order : List Nat} :
    atWeight fallback target order = fallback ∨ atWeight fallback target order ∈ order := by
  induction order generalizing target with
  | nil => exact .inl rfl
  | cons i rest ih =>
      rw [atWeight]
      split
      · exact .inr List.mem_cons_self
      · exact ih.imp_right (List.mem_cons_of_mem i)

/-- Whatever the method is, it selects one of the candidates, if they can be sorted and their
weights can be counted where that is needed. -/
theorem yields_selectIndex_of_sortable (method : SelectionMethod)
    (hSortable : method = .rankBased → ∀ fault, byScore scores = .error fault → faults fault)
    (hWeights : method = .rankBased → HasWeights faults scores.size) :
    Yields faults (selectIndex method scores : Draw ρ Nat) (· < scores.size) := by
  cases method with
  | tournament size =>
      refine Guards.bind (yields_index hEndless hSome) fun first hFirst => ?_
      exact yields_tournament hEndless hSome _ hFirst
  | random => exact yields_index hEndless hSome
  | rankBased =>
      have hTotal : 0 < scores.size * (scores.size + 1) / 2 :=
        Nat.div_pos (by nlinarith) Nat.two_pos
      refine Guards.bind (Guards.ofExcept fun fault _ hFault _ => hSortable rfl fault hFault)
        fun order hOrder => ?_
      have hPerm := perm_of_byScore hOrder
      have hMember : ∀ i ∈ order, i < scores.size :=
        fun i hi => List.mem_range.mp (hPerm.mem_iff.mp hi)
      have hCounted : Guards (fun fault _ => faults fault) (fun _ : ρ => True)
          (ofExcept (Checked.mulCounts scores.size (scores.size + 1)))
          fun weights => weights = scores.size * (scores.size + 1) :=
        (Guards.ofExcept fun fault _ hFault _ => (hWeights rfl).of_mulCounts hFault).weaken
          fun weights hCount => (Checked.mulCounts_eq_ok_iff.mp hCount).2
      refine Guards.bind hCounted ?_
      rintro _ rfl
      refine Guards.bind (yields_index hEndless hTotal) fun target _ => Guards.pure ?_
      obtain ⟨first, rest, rfl⟩ : ∃ first rest, order = first :: rest := by
        apply List.exists_cons_of_length_pos
        rwa [hPerm.length_eq, List.length_range]
      rcases atWeight_mem with hFallback | hMem
      · rw [hFallback]
        exact hMember first List.mem_cons_self
      · exact hMember _ hMem

/-- Selection answers with an index of the scores, by either method. -/
theorem yields_selectIndex (hNumbers : ∀ score ∈ scores, score.isNaN = false)
    (method : SelectionMethod) (hWeights : method = .rankBased → HasWeights faults scores.size) :
    Yields faults (selectIndex method scores : Draw ρ Nat) (· < scores.size) := by
  refine yields_selectIndex_of_sortable hEndless hSome method (fun _ fault hFault => ?_) hWeights
  have hNumeric : ∀ i ∈ List.range scores.size, (scores.getD i 0.0).isNaN = false := by
    intro i hi
    have hi := List.mem_range.mp hi
    rw [Array.getD_eq_getD_getElem?, Array.getElem?_eq_getElem hi]
    exact hNumbers _ (Array.getElem_mem hi)
  have hOrder := sortByKey_of_numeric (· < ·) (fun i => scores.getD i 0.0) _ hNumeric
  cases hOrder.symm.trans hFault

end Selection

/-- The mean of finite numbers that are not negative is a number. It may be infinite. -/
theorem isNaN_meanFitness {row : List Float} (hLength : row.length ≤ 2 ^ 64)
    (hRow : IsMeasured row) : (meanFitness row).isNaN = false := by
  unfold meanFitness
  split
  · exact hasValue_zero.isNaN
  · rename_i hSome
    have hPos : 0 < row.length :=
      List.length_pos_iff.mpr fun hNone => hSome (List.isEmpty_iff.mpr hNone)
    have hSum : ∀ (xs : List Float) (total : Float), Nonnegative total → IsMeasured xs →
        Nonnegative (xs.foldl (· + ·) total) := by
      intro xs
      induction xs with
      | nil => exact fun _ hTotal _ => hTotal
      | cons x xs ih =>
          intro total hTotal hAll
          obtain ⟨⟨_, hValue⟩, hRest⟩ := List.forall_mem_cons.mp hAll
          exact ih _ (hTotal.add hValue.nonnegative) hRest
    obtain ⟨_, hZero⟩ := exists_value (x := -0.0) (by decide) (by decide)
    obtain ⟨_, hCount, hPositive⟩ := exists_value_ofNat hPos hLength
    exact ((hSum row _ hZero.nonnegative hRow).div hCount hPositive).isNaN

end Search

end WitnessSearch
