import WitnessSearch.Proofs.Search.Reachable
import WitnessSearch.Proofs.Search.Stages
import WitnessSearch.Proofs.Search.Steady

/-! What breeding comes to, with any operators. An operator may spoil what it is handed before it
gives up, but the children of a failed crossover descend from their parents as these were. Breeding
has as many offspring as there are parents, whichever way these are selected, and touches nothing
but the source and the evaluator. -/

namespace WitnessSearch.Search

open Draw

variable {ρ τ : Type} [RandomSource ρ] [Variation ρ τ]

section Children

/-- A crossover comes to nothing. It is not attempted, or it fails, whatever it does to what it is
handed. -/
inductive Uncrossed (rate : Float) (first second : Chromosome τ) (source later : ρ) : Prop
  | spared (chance : Draw.chance rate source = .ok false later)
  | failed {middle : ρ} {crossing : Crossing (Chromosome τ)}
      (chance : Draw.chance rate source = .ok true middle)
      (run : first.crossover second middle = .ok crossing later)
      (failure : crossing.failure ≠ none)

/-- A child is its parent, or the parent after one mutation, as is drawn for this child alone. -/
inductive Descends (rate : Float) (parent : Chromosome τ) (source : ρ) (child : Chromosome τ)
    (later : ρ) : Prop
  | copied (chance : Draw.chance rate source = .ok false later) (same : child = parent)
  | mutated {middle : ρ} (chance : Draw.chance rate source = .ok true middle)
      (run : parent.mutate middle = .ok child later)

variable {rate : Float} {first second parent child : Chromosome τ} {source later final : ρ}

/-- A child descends from its parent, by the mutation or by a copy. -/
theorem descends_of_mutateChild (h : mutateChild rate parent source = .ok child later) :
    Descends rate parent source child later := by
  obtain ⟨mutates, middle, hChance, hChild⟩ := exists_of_run_bind h
  cases mutates with
  | false =>
      cases hChild
      exact .copied hChance rfl
  | true => exact .mutated hChance hChild

/-- The operands of a failed crossover are discarded. -/
theorem crossParents_of_uncrossed (h : Uncrossed rate first second source later) :
    crossParents rate first second source = .ok (first, second) later := by
  cases h with
  | spared chance => exact (bind_of_ok chance).trans rfl
  | @failed middle crossing chance run failure =>
      refine (bind_of_ok chance).trans ((bind_of_ok run).trans ?_)
      obtain ⟨reason, hReason⟩ := Option.ne_none_iff_exists'.mp failure
      simp only [hReason]
      rfl

/-- Children of a pair that was not crossed descend from one parent each. -/
theorem descends_of_children {config : Config} {pair : Chromosome τ × Chromosome τ}
    (hUncrossed : Uncrossed config.crossoverRate first second source later)
    (h : children config first second source = .ok pair final) :
    ∃ middle, Descends config.mutationRate first later pair.1 middle ∧
      Descends config.mutationRate second middle pair.2 final := by
  obtain ⟨parents, start, hParents, hChildren⟩ := exists_of_run_bind h
  cases (crossParents_of_uncrossed hUncrossed).symm.trans hParents
  obtain ⟨a, middle, hFirst, hRest⟩ := exists_of_run_bind hChildren
  obtain ⟨b, last, hSecond, hDone⟩ := exists_of_run_bind hRest
  cases hDone
  exact ⟨middle, descends_of_mutateChild hFirst, descends_of_mutateChild hSecond⟩

end Children

section Faults

/-- What can go wrong with the operators of the tests: a draw without end, or what an operator
raises itself. -/
inductive OperatorFault (ρ τ : Type) [Variation ρ τ] : Fault → Prop
  | endless : OperatorFault ρ τ .endlessRejection
  | mutate {test : τ} {source later : ρ} {fault : Fault}
      (run : Variation.mutate test source = .error fault later) : OperatorFault ρ τ fault
  | crossover {first second : τ} {source later : ρ} {fault : Fault}
      (run : Variation.crossover first second source = .error fault later) :
      OperatorFault ρ τ fault

/-- Nothing is asked of the operators where all that they raise is allowed. -/
theorem operators_any {faults : Fault → Prop}
    (h : ∀ fault, OperatorFault ρ τ fault → faults fault) :
    Operators ρ faults fun _ : τ => True where
  endless := h _ .endless
  mutate _ _ := yields_of_fault (fun _ _ _ hRun => h _ (.mutate hRun)) fun _ => trivial
  crossover _ _ _ _ := yields_of_fault (fun _ _ _ hRun => h _ (.crossover hRun)) fun _ _ =>
    ⟨trivial, trivial⟩

end Faults

section Litters

/-- But for the source and the evaluator nothing has changed. -/
def Aside (origin search : Search ρ τ) : Prop :=
  search = { origin with source := search.source, evaluator := search.evaluator }

/-- A search that has not changed otherwise ended in one of the given faults. -/
def Halted (faults : Fault → Prop) (origin : Search ρ τ) (fault : Fault) (final : Search ρ τ) :
    Prop :=
  faults fault ∧ Aside origin final

def Born (origin : Search ρ τ) (parents : List (Chromosome τ))
    (pair : Chromosome τ × Chromosome τ) : Prop :=
  ∃ first ∈ parents, ∃ second ∈ parents, ∃ before after, Aside origin before ∧
    reproduce first second before = .ok pair after

variable {faults : Fault → Prop} {origin : Search ρ τ} {α : Type}

omit [RandomSource ρ] [Variation ρ τ] in
theorem Aside.config {search : Search ρ τ} (h : Aside origin search) :
    search.config = origin.config := by
  rw [h]

omit [RandomSource ρ] [Variation ρ τ] in
theorem guards_drawing_aside {draw : Draw ρ α} {property : α → Prop}
    (h : Yields faults draw property) :
    Guards (Halted faults origin) (Aside origin) (drawing draw) property := by
  refine Confines.of_state fun search hAside => Confines.drawing ?_
  have hMoved : ∀ source, Aside origin { search with source } := by
    intro source
    unfold Aside at hAside ⊢
    rw [hAside]
  split
  · exact ⟨(h.answer trivial ‹_›).1, hMoved _⟩
  · exact ⟨h.fault trivial ‹_›, hMoved _⟩

variable (hOperators : Operators ρ faults fun _ : τ => True)
  (hConfig : origin.config.validate = .ok ())
include hOperators hConfig

theorem guards_reproduce_aside (first second : Chromosome τ) :
    Guards (Halted faults origin) (Aside origin) (reproduce first second) fun _ => True := by
  refine Guards.get_bind fun search hAside => guards_drawing_aside ?_
  exact Guards.weaken (hOperators.yields_children (hAside.config ▸ hConfig) (fun _ _ => trivial)
    fun _ _ => trivial) fun _ _ => trivial

/-- A reproduction gives children of the two that were chosen. -/
theorem guards_born {parents : List (Chromosome τ)} {first second : Chromosome τ}
    (hFirst : first ∈ parents) (hSecond : second ∈ parents) :
    Guards (Halted faults origin) (Aside origin) (reproduce first second)
      (Born origin parents) := by
  have hRuns : Ensures (Aside origin) (reproduce first second) fun pair _ =>
      Born origin parents pair := by
    intro before pair after hBefore hRun
    exact ⟨first, hFirst, second, hSecond, before, after, hBefore, hRun⟩
  exact Confines.weaken (Confines.and_ensures
    (guards_reproduce_aside hOperators hConfig first second) hRuns) fun _ _ h => ⟨h.2, h.1.2⟩

/-- A litter has two children of the parents, and changes nothing but the source and the evaluator.
-/
theorem guards_litter_aside {parents : List (Chromosome τ)} {scores : Array Float}
    (hSome : parents ≠ []) (hScores : scores.size = parents.length)
    (hSortable : origin.config.selection = .rankBased →
      ∀ fault, byScore scores = .error fault → faults fault)
    (hWeights : origin.config.selection = .rankBased → HasWeights faults parents.length) :
    Guards (Halted faults origin) (Aside origin) (litter parents.toArray scores) fun children =>
      ∃ pair, children = [pair.1, pair.2] ∧ Born origin parents pair := by
  refine Guards.litter (fun search hAside => guards_drawing_aside ?_)
    (fun i _ hPlace _ hBeyond => absurd hPlace (Nat.not_lt.mpr hBeyond))
    fun first hFirst second hSecond => ?_
  · rw [← hScores] at hWeights ⊢
    rw [hAside.config]
    exact yields_selectIndex_of_sortable hOperators.endless
      (hScores ▸ List.length_pos_iff.mpr hSome) _ hSortable hWeights
  · exact (guards_born hOperators hConfig hFirst hSecond).weaken fun pair hPair => ⟨pair, rfl, hPair⟩

end Litters

section Breeding

variable [HasCode τ]

/-- What can go wrong with breeding: what the operators of the tests or the executor raise, and that
parents which are to be selected by rank cannot be sorted by their means, or are so many that their
weights cannot be counted. -/
inductive BreedingFault (problem : Problem ρ τ) (search : Search ρ τ)
    (parents : List (Chromosome τ)) : Fault → Prop
  | operator {fault : Fault} (raised : OperatorFault ρ τ fault) :
      BreedingFault problem search parents fault
  | executor {fault : Fault} {chromosome : Chromosome τ} {goal : Goal}
      (run : problem.executor.execute chromosome goal = .error fault) :
      BreedingFault problem search parents fault
  | unordered {matrix : List (List Float)} {evaluator : Evaluator}
      (selection : search.config.selection = .rankBased)
      (scores : Evaluator.fitnessMatrix problem.executor parents search.remaining
        search.evaluator = .ok matrix evaluator)
      (unordered : areOrdered (matrix.map meanFitness) = false) :
      BreedingFault problem search parents .unorderedKeys
  | uncountable (selection : search.config.selection = .rankBased)
      (many : Checked.countLimit ≤ parents.length * (parents.length + 1)) :
      BreedingFault problem search parents .countOverflow

variable {problem : Problem ρ τ} {search : Search ρ τ} {parents : List (Chromosome τ)}

omit [RandomSource ρ] [Variation ρ τ] [HasCode τ] in
/-- Candidates cannot be sorted only if their scores have no common order. -/
theorem unordered_of_byScore {scores : List Float} {fault : Fault}
    (h : byScore scores.toArray = .error fault) :
    fault = .unorderedKeys ∧ areOrdered scores = false := by
  have hKeys : (List.range scores.toArray.size).map (fun i => scores.toArray.getD i 0.0) =
      scores := by
    refine List.ext_getElem (by simp) fun i hLeft hRight => ?_
    simp [hRight]
  unfold byScore sortByKey at h
  rw [hKeys] at h
  split at h
  · cases h
  · rename_i hLong
    cases h
    exact ⟨rfl, by simpa using (not_or.mp hLong).2⟩

omit [RandomSource ρ] in
/-- The scores are what the evaluator answers, or the executor has raised a fault. -/
theorem confines_scores :
    Confines (Halted (BreedingFault problem search parents) search) (· = search)
      (evaluating (Evaluator.fitnessMatrix problem.executor parents search.remaining))
      fun matrix final => (matrix.length = parents.length ∧ ∃ evaluator,
        Evaluator.fitnessMatrix problem.executor parents search.remaining search.evaluator =
          .ok matrix evaluator) ∧ Aside search final := by
  refine Confines.evaluating ?_
  split
  · rename_i hRun
    exact ⟨⟨Evaluator.length_of_fitnessMatrix hRun, _, hRun⟩, rfl⟩
  · rename_i hRun
    obtain ⟨chromosome, -, goal, hFault⟩ :=
      (Evaluator.works_fitnessMatrix problem.executor parents search.remaining).struck hRun
    exact ⟨.executor hFault, rfl⟩

/-- The offspring is what pairs of children amount to, cut to the number of parents. -/
def Offspring (search : Search ρ τ) (parents offspring : List (Chromosome τ)) : Prop :=
  offspring.length = parents.length ∧ ∃ pairs : List (Chromosome τ × Chromosome τ),
    (∀ pair ∈ pairs, Born search parents pair) ∧
      offspring = (pairs.flatMap fun pair => [pair.1, pair.2]).take parents.length

omit [HasCode τ] in
/-- Litters of two, one for each pair of parents, are cut to the number of the parents. -/
theorem offspring_of_litters {litters : List (List (Chromosome τ))}
    (hCount : litters.length = (parents.length + 1) / 2)
    (hLitters : ∀ litter ∈ litters, ∃ pair : Chromosome τ × Chromosome τ,
      litter = [pair.1, pair.2] ∧ Born search parents pair) :
    Offspring search parents (litters.flatten.take parents.length) := by
  have hPairs : ∃ pairs : List (Chromosome τ × Chromosome τ),
      (∀ pair ∈ pairs, Born search parents pair) ∧
        litters = pairs.map fun pair => [pair.1, pair.2] := by
    clear hCount
    induction litters with
    | nil => exact ⟨[], nofun, rfl⟩
    | cons litter rest ih =>
        obtain ⟨⟨pair, rfl, hBorn⟩, hRest⟩ := List.forall_mem_cons.mp hLitters
        obtain ⟨pairs, hPairs, rfl⟩ := ih hRest
        exact ⟨pair :: pairs, List.forall_mem_cons.mpr ⟨hBorn, hPairs⟩, rfl⟩
  obtain ⟨pairs, hBorn, rfl⟩ := hPairs
  rw [List.length_map] at hCount
  have hAll : (pairs.map fun pair => [pair.1, pair.2]).flatten.length = 2 * pairs.length := by
    simp [Function.comp_def, Nat.mul_comm]
  refine ⟨?_, pairs, hBorn, ?_⟩
  · rw [List.length_take, hAll]
    omega
  · rw [List.flatMap_def]

/-- Breeding gives the offspring of its parents or stops with one of its faults, and changes nothing
but the source and the evaluator. -/
theorem confines_breed (hConfig : search.config.validate = .ok ()) (hSome : parents ≠ []) :
    Confines (Halted (BreedingFault problem search parents) search) (· = search)
      (breed problem parents) fun offspring final =>
        Offspring search parents offspring ∧ Aside search final := by
  have hOperators : Operators ρ (BreedingFault problem search parents) fun _ : τ => True :=
    operators_any fun _ => .operator
  have hWeights : search.config.selection = .rankBased →
      HasWeights (BreedingFault problem search parents) parents.length := fun hSelection =>
    (Nat.lt_or_ge _ _).imp_right fun hMany => .uncountable hSelection hMany
  refine (Confines.breed (fun hNone => absurd hNone hSome) (fun _ => confines_scores)
    fun matrix _ hMatrix => guards_litter_aside hOperators hConfig hSome ?_ ?_ hWeights).weaken ?_
  · simpa using hMatrix.1
  · intro hSelection fault hFault
    obtain ⟨rfl, hUnordered⟩ := unordered_of_byScore hFault
    obtain ⟨-, evaluator, hScores⟩ := hMatrix
    exact .unordered hSelection hScores hUnordered
  · rintro _ later ⟨⟨litters, hCount, hLitters, rfl⟩, hLater⟩
    exact ⟨offspring_of_litters hCount hLitters, hLater⟩

omit [RandomSource ρ] [Variation ρ τ] in
/-- The means of distances have a common order. -/
theorem areOrdered_of_distances
    (hMemo : search.evaluator.Attested problem.executor)
    (hDistances : ∀ chromosome goal execution,
      problem.executor.execute chromosome goal = .ok (.ok execution) →
        execution.fitness.isFinite = true ∧ ¬execution.fitness < 0.0)
    (hRoom : search.remaining.length ≤ 2 ^ 64) {matrix : List (List Float)} {evaluator : Evaluator}
    (hScores : Evaluator.fitnessMatrix problem.executor parents search.remaining
      search.evaluator = .ok matrix evaluator) : areOrdered (matrix.map meanFitness) = true := by
  have hMatrix := (Evaluator.keeps_fitnessMatrix_scores _ _ _ hMemo hScores).1
  have hNumbers : ∀ score ∈ matrix.map meanFitness, score.isNaN = false := by
    rw [List.forall_mem_map]
    intro row hRow
    obtain ⟨parent, -, hFitness⟩ := exists_left_of_related hMatrix hRow
    exact isNaN_meanFitness (hFitness.length_eq ▸ hRoom) (isMeasured_of_scores hDistances hFitness)
  simp only [areOrdered, Bool.or_eq_true, List.all_eq_true, Bool.not_eq_true']
  exact .inl hNumbers

omit [HasCode τ] in
/-- A reproduction draws its children and changes nothing but the source, whether it answers or not.
-/
theorem reproduce_eq (first second : Chromosome τ) :
    reproduce first second search =
      match children search.config first second search.source with
      | .ok pair source => .ok pair { search with source }
      | .error fault source => .error fault { search with source } := by
  change drawing (children search.config first second) search = _
  unfold drawing
  cases children search.config first second search.source <;> rfl

omit [HasCode τ] in
/-- A reproduction touches the source only, and it is not thrown off by a failed crossover. -/
theorem reproduce_cases (hConfig : search.config.validate = .ok ()) (first second : Chromosome τ) :
    match reproduce first second search with
    | .ok (a, b) final => final = { search with source := final.source } ∧
        ∀ later, Uncrossed search.config.crossoverRate first second search.source later →
          ∃ middle, Descends search.config.mutationRate first later a middle ∧
            Descends search.config.mutationRate second middle b final.source
    | .error fault final =>
        final = { search with source := final.source } ∧ OperatorFault ρ τ fault := by
  have hYields : Yields (OperatorFault ρ τ) (children search.config first second) _ :=
    (operators_any fun _ => id).yields_children hConfig (fun _ _ => trivial) fun _ _ => trivial
  have hOutcome := @hYields search.source trivial
  rw [reproduce_eq]
  cases hRun : children search.config first second search.source with
  | ok pair source => exact ⟨rfl, fun later hUncrossed => descends_of_children hUncrossed hRun⟩
  | error fault source =>
      rw [hRun] at hOutcome
      exact ⟨rfl, hOutcome⟩

/-- Breeding either gives offspring of its parents or stops with one of the faults of breeding. In
both cases the search is as before but for the source and the evaluator. -/
theorem breed_cases (hConfig : search.config.validate = .ok ()) (hSome : parents ≠ []) :
    match breed problem parents search with
    | .ok offspring final => Offspring search parents offspring ∧ Aside search final
    | .error fault final => BreedingFault problem search parents fault ∧ Aside search final := by
  have hBreed : Confines _ (· = search) (breed problem parents) _ := confines_breed hConfig hSome
  have hOutcome := hBreed rfl
  cases hRun : breed problem parents search with
  | ok offspring final => rwa [hRun] at hOutcome
  | error fault final => rwa [hRun] at hOutcome

/-- Breeding gets over crossovers that fail, and it has as many offspring as there are parents. A
reproduction touches the source only. If the parents are not to be crossed, or cannot be, each child
is its parent or its parent after one mutation, as is drawn for each of the two by itself, no matter
what a failed crossover made of its operands. Without parents there is no offspring. Otherwise the
offspring is pairs of children, each of two of the parents, cut to the number of parents, whichever
way these are selected. A fault is that of an operator or of the executor, or a draw has no end;
only means of what were no distances can be without an order to sort the parents by, and only very
many parents have weights that cannot be counted. -/
theorem breeding_recovers_and_keeps_size (problem : Problem ρ τ) {search : Search ρ τ}
    (hConfig : search.config.validate = .ok ()) :
    (∀ first second : Chromosome τ, match reproduce first second search with
      | .ok (a, b) final => final = { search with source := final.source } ∧
          ∀ later, Uncrossed search.config.crossoverRate first second search.source later →
            ∃ middle, Descends search.config.mutationRate first later a middle ∧
              Descends search.config.mutationRate second middle b final.source
      | .error fault final =>
          final = { search with source := final.source } ∧ OperatorFault ρ τ fault) ∧
    breed problem [] search = .ok [] search ∧
    (∀ parents : List (Chromosome τ), parents ≠ [] → match breed problem parents search with
      | .ok offspring final => Offspring search parents offspring ∧ Aside search final
      | .error fault final => BreedingFault problem search parents fault ∧ Aside search final) ∧
    (search.evaluator.Attested problem.executor → search.remaining.length ≤ 2 ^ 64 →
      (∀ chromosome goal execution,
        problem.executor.execute chromosome goal = .ok (.ok execution) →
          execution.fitness.isFinite = true ∧ ¬execution.fitness < 0.0) →
      ∀ parents fault final, breed problem parents search = .error fault final →
        OperatorFault ρ τ fault ∨
          (∃ chromosome goal, problem.executor.execute chromosome goal = .error fault) ∨
          fault = .countOverflow ∧ search.config.selection = .rankBased ∧
            Checked.countLimit ≤ parents.length * (parents.length + 1)) := by
  refine ⟨reproduce_cases hConfig, rfl, fun parents => breed_cases hConfig, ?_⟩
  intro hMemo hRoom hDistances parents fault final hRun
  have hSome : parents ≠ [] := by
    rintro rfl
    cases hRun
  have hOutcome : match breed problem parents search with
      | .ok offspring final => Offspring search parents offspring ∧ Aside search final
      | .error fault final => BreedingFault problem search parents fault ∧ Aside search final :=
    breed_cases hConfig hSome
  rw [hRun] at hOutcome
  cases hOutcome.1 with
  | operator raised => exact .inl raised
  | executor run => exact .inr (.inl ⟨_, _, run⟩)
  | unordered _ scores unordered =>
      rw [areOrdered_of_distances hMemo hDistances hRoom scores] at unordered
      cases unordered
  | uncountable selection many => exact .inr (.inr ⟨rfl, selection, many⟩)

end Breeding

section Spoilers

/-- A test that counts its mutations. -/
structure Counted where
  value : Nat
  mutations : Nat
deriving DecidableEq

instance : HasCode Counted :=
  ⟨fun test => test.value.repr ++ "+" ++ test.mutations.repr⟩

/-- A crossover spoils both of its operands and fails. -/
instance : Variation Replay Counted where
  mutate test := return { test with mutations := test.mutations + 1 }
  crossover _ _ := return ⟨⟨0, 0⟩, ⟨0, 0⟩, some ⟨"spoiled"⟩⟩

def spoilerProblem : Problem Replay Counted where
  factory := { fresh := return .single ⟨0, 0⟩ }
  executor := ⟨fun _ _ => .ok (.ok ⟨1.0, none⟩)⟩

def spoilerConfig : Config :=
  { trialConfig with crossoverRate := 1.0, mutationRate := 1.0 }

def spoilerSearch : Search Replay Counted :=
  made spoilerConfig (.start [] 0) [trialGoal]

/-- Both parents are mutated once, and nothing is left of what the crossover made of them. -/
theorem breeding_recovers_and_keeps_size_spoiled :
    spoilerConfig.validate = .ok () ∧
      ∃ final middle, reproduce (.single ⟨1, 0⟩) (.single ⟨2, 0⟩) spoilerSearch =
          .ok (.single ⟨1, 1⟩, .single ⟨2, 1⟩) final ∧
        final = { spoilerSearch with source := final.source } ∧
        Descends 1.0 (.single (⟨1, 0⟩ : Counted)) spoilerSearch.source (.single ⟨1, 1⟩) middle ∧
        Descends 1.0 (.single (⟨2, 0⟩ : Counted)) middle (.single ⟨2, 1⟩) final.source := by
  have hConfig : spoilerConfig.validate = .ok () := rfl
  have hRun : reproduce (.single ⟨1, 0⟩) (.single ⟨2, 0⟩) spoilerSearch =
      .ok (.single ⟨1, 1⟩, .single ⟨2, 1⟩) spoilerSearch := rfl
  have hReproduce := (@breeding_recovers_and_keeps_size Replay Counted _ _ _ spoilerProblem
    spoilerSearch hConfig).1 (.single ⟨1, 0⟩) (.single ⟨2, 0⟩)
  rw [hRun] at hReproduce
  obtain ⟨hAside, hChildren⟩ := hReproduce
  obtain ⟨middle, hFirst, hSecond⟩ := hChildren _ (.failed rfl rfl nofun)
  exact ⟨hConfig, spoilerSearch, middle, hRun, hAside, hFirst, hSecond⟩

end Spoilers

end WitnessSearch.Search
