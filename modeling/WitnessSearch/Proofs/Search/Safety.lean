import WitnessSearch.Proofs.Search.Commands

/-! A validated search never fails. The configuration is checked when the search is made, and
nothing that the search does by itself after that is a fault. What is asked of the surroundings is
that their own operations do not fail, that fitness values are finite and not negative, and that all
observations for one goal have one arity. -/

namespace WitnessSearch

variable {ρ τ : Type}

/-- The operations of the surroundings do not fail, and the executions can be compared. A draw may
still turn down word after word without an end, which is left to the source. -/
structure Problem.Calm [Variation ρ τ] (problem : Problem ρ τ) : Prop where
  fresh : ∀ source fault later, problem.factory.fresh source = .error fault later →
    fault = .endlessRejection
  biased : ∀ goal source fault later, problem.factory.biased goal source = .error fault later →
    fault = .endlessRejection
  mutate : ∀ (test : τ) (source : ρ) fault later,
    Variation.mutate test source = .error fault later → fault = .endlessRejection
  crossover : ∀ (first second : τ) (source : ρ) fault later,
    Variation.crossover first second source = .error fault later → fault = .endlessRejection
  execute : ∀ chromosome goal, ∃ answer, problem.executor.execute chromosome goal = .ok answer
  measured : ∀ chromosome goal execution,
    problem.executor.execute chromosome goal = .ok (.ok execution) →
      execution.fitness.isFinite = true ∧ 0.0 ≤ execution.fitness
  /-- A missing observation counts as one without components. -/
  uniform : ∀ goal, ∃ arity, ∀ chromosome execution,
    problem.executor.execute chromosome goal = .ok (.ok execution) → execution.isCovered = true →
      (execution.observation.getD .empty).arity = arity

/-- A calm problem is sturdy, with draws without end as its only faults. -/
theorem Problem.Calm.sturdy [HasCode τ] [Variation ρ τ] {problem : Problem ρ τ}
    (h : problem.Calm) :
    ∃ arity, problem.Sturdy (· = .endlessRejection) (fun _ => True) arity := by
  obtain ⟨arity, hArity⟩ := Classical.axiomOfChoice h.uniform
  exact ⟨arity, {
    endless := rfl
    fresh := Draw.yields_of_fault h.fresh fun _ _ _ => trivial
    biased := fun goal => Draw.yields_of_fault (h.biased goal) fun _ _ _ => trivial
    mutate := fun test _ => Draw.yields_of_fault (h.mutate test) fun _ => trivial
    crossover := fun first second _ _ =>
      Draw.yields_of_fault (h.crossover first second) fun _ _ => ⟨trivial, trivial⟩
    execute := by
      intro chromosome _ goal fault hFault
      obtain ⟨answer, hAnswer⟩ := h.execute chromosome goal
      rw [hAnswer] at hFault
      cases hFault
    fits := fun chromosome goal execution hAnswer =>
      ⟨(h.measured chromosome goal execution hAnswer).1,
        FloatOrder.not_lt_of_le (h.measured chromosome goal execution hAnswer).2,
        hArity goal chromosome execution hAnswer⟩ }⟩

namespace Archive

/-- A bounded archive holds at most the target number of witnesses for each of its goals. -/
theorem Bounded.size_le {archive : Archive τ} (h : archive.Bounded)
    (hAscending : Goal.Ascending archive.goals) :
    archive.size ≤ archive.goals.length * archive.target := by
  have hEach : ∀ count ∈ archive.entries.map fun entry => entry.2.length,
      count ≤ archive.target := by
    rw [List.forall_mem_map]
    rintro ⟨goal, held⟩ hMem
    rw [← witnesses_of_mem_entries hAscending hMem]
    exact h goal
  rw [size_eq_sum]
  have hSum := List.sum_le_card_nsmul _ _ hEach
  rw [List.length_map] at hSum
  change _ ≤ (archive.entries.map Prod.fst).length * archive.target
  rwa [List.length_map]

/-- No fingerprint appears more often than there are witnesses. -/
theorem appearanceCount_le_size (archive : Archive τ) (fingerprint : Fingerprint) :
    archive.appearanceCount fingerprint ≤ archive.size := by
  exact List.countP_le_length.trans (size_eq_length archive).ge

end Archive

namespace Search

/-- A new search has at most the goals it was given. -/
theorem length_goals_made_le (config : Config) (source : ρ) (goals : List Goal) :
    (made config source goals : Search ρ τ).archive.goals.length ≤ goals.length :=
  ((ascending_goals_made config source goals).nodup.subperm fun _ hMem =>
    (mem_goals_made config source goals _).mp hMem).length_le

variable [HasCode τ]

/-- The counts of a search stay small if its population and its archive can only be small. -/
theorem affordable_made (executor : Executor τ) (faults : Fault → Prop) (good : τ → Prop)
    {config : Config} (source : ρ) {goals : List Goal} (hConfig : config.validate = .ok ())
    (hRoom : candidateBytes * config.population.size ≤ Checked.listBytes)
    (hWeights : config.selection = .rankBased →
      config.population.size * (config.population.size + 1) < Checked.countLimit)
    (hCounts : 2 * config.population.size + goals.length * config.multicoverTarget <
      Checked.countLimit) :
    Affordable executor faults good (made config source goals) where
  valid := hConfig
  room := .inl hRoom
  weights hRanked := .inl (hWeights hRanked)
  goals := by
    have hTarget := Nat.pos_of_ne_zero (Config.validate_eq_ok_iff.mp hConfig).target
    have hFew := length_goals_made_le (τ := τ) config source goals
    have hMany : goals.length * 1 ≤ goals.length * config.multicoverTarget :=
      Nat.mul_le_mul_left _ hTarget
    change _ < Checked.countLimit
    omega
  tally _ known search hSearch fingerprint := by
    have hFew := length_goals_made_le (τ := τ) config source goals
    have hSize := hSearch.sound.bounded.size_le hSearch.ascending
    rw [hSearch.grows.goals, hSearch.grows.target, target_made] at hSize
    have hMany := Nat.mul_le_mul_right config.multicoverTarget hFew
    have hAppears := search.archive.appearanceCount_le_size fingerprint
    change 2 * config.population.size + _ < _
    omega

variable [RandomSource ρ] [Variation ρ τ]

/-- What a search can be told to do. -/
inductive Command (τ : Type) where
  | call (asked : Call τ)
  /-- A whole run on the given signals. -/
  | run (signals : Nat → Signal)

/-- What a command does. What a run has to show is not kept. -/
def Command.perform (problem : Problem ρ τ) : Command τ → SearchM ρ τ Unit
  | .call asked => asked.perform problem
  | .run signals => do
    let _ ← Search.run problem signals
    return ()

/-- The states that commands can lead to, none of which ended in a fault. -/
inductive Visited (problem : Problem ρ τ) (initial : Search ρ τ) : Search ρ τ → Prop where
  | initial : Visited problem initial initial
  | next {search next : Search ρ τ} (command : Command τ) (prior : Visited problem initial search)
      (last : command.perform problem search = .ok () next) : Visited problem initial next

section Commands

variable {problem : Problem ρ τ} {faults : Fault → Prop} {arity : Goal → Nat}
  (h : problem.Sturdy faults (fun _ => True) arity) {origin : Search ρ τ}
  (hOrigin : Affordable problem.executor faults (fun _ => True) origin)
include h hOrigin

/-- Every command keeps a search secure, or breaks off with one of the expected faults. -/
theorem confines_command (command : Command τ) :
    Confines (Broken faults fun _ => True) (Secure problem.executor (fun _ => True) origin)
      (command.perform problem) fun _ => Secure problem.executor (fun _ => True) origin := by
  cases command with
  | call asked =>
      refine confines_call h hOrigin ?_
      cases asked with
      | start => exact trivial
      | step => exact trivial
      | reproduce first second => exact ⟨fun _ _ => trivial, fun _ _ => trivial⟩
  | run signals =>
      exact Confines.bind (confines_run h hOrigin signals) fun _ =>
        Confines.pure fun _ hSecure => hSecure

/-- Every search that commands lead to is secure, by induction over the commands. -/
theorem Visited.secure {search : Search ρ τ} (hSearch : Visited problem origin search)
    (hSecure : Secure problem.executor (fun _ => True) origin origin) :
    Secure problem.executor (fun _ => True) origin search := by
  induction hSearch with
  | initial => exact hSecure
  | next command _ last ih => exact (confines_command h hOrigin command).answer ih last

end Commands

/-- A search can be made from a valid configuration exactly if there is a goal. Whatever it is told
to do then, and whatever it has done before, it does, provided that the draws come to an end: for
any source, any tests and any surroundings that do not fail themselves. Sizes are taken to be so
small that a population fits into memory, that the candidates and witnesses can be counted, and that
selection by rank can count its weights. -/
theorem valid_search_never_fails {config : Config} (hConfig : config.validate = .ok ()) :
    (∀ source : ρ, (new config source [] : Except ConfigError (Search ρ τ)) = .error .noGoals) ∧
      ∀ (source : ρ) (goals : List Goal), goals ≠ [] →
        ∃ initial : Search ρ τ, new config source goals = .ok initial ∧
          ∀ problem : Problem ρ τ, problem.Calm →
            candidateBytes * config.population.size ≤ Checked.listBytes →
            (config.selection = .rankBased →
              config.population.size * (config.population.size + 1) < Checked.countLimit) →
            2 * config.population.size + goals.length * config.multicoverTarget <
              Checked.countLimit →
            ∀ search, Visited problem initial search → ∀ command : Command τ,
              (∃ next, command.perform problem search = .ok () next) ∨
                ∃ final, command.perform problem search = .error .endlessRejection final := by
  refine ⟨fun source => by rw [new_of_validate source [] hConfig, if_pos rfl], ?_⟩
  intro source goals hGoals
  refine ⟨made config source goals, ?_, ?_⟩
  · rw [new_of_validate source goals hConfig, if_neg hGoals]
  intro problem hCalm hRoom hWeights hCounts search hSearch command
  obtain ⟨arity, hSturdy⟩ := hCalm.sturdy
  have hOrigin := affordable_made problem.executor (· = .endlessRejection) (fun _ => True) source
    hConfig hRoom hWeights hCounts
  have hSecure := hSearch.secure hSturdy hOrigin (secure_made _ _ config source goals)
  have hConfined := confines_command hSturdy hOrigin command
  cases hRun : command.perform problem search with
  | ok _ next => exact .inl ⟨next, rfl⟩
  | error fault final =>
      obtain ⟨rfl, -⟩ := hConfined.fault hSecure hRun
      exact .inr ⟨final, rfl⟩

section Letters

/-- A test that is nothing but a letter. -/
inductive Letter where
  | a
  | b
deriving DecidableEq

instance : HasCode Letter where
  code
    | .a => "a"
    | .b => "b"

/-- A mutant is drawn anew, and crossing exchanges the tests. -/
instance : Variation Replay Letter where
  mutate _ := do return if (← Draw.word) = 0 then .a else .b
  crossover first second := return ⟨second, first, none⟩

def letterA : Chromosome Letter :=
  .single .a

def letterB : Chromosome Letter :=
  .single .b

/-- What a letter scores: the first meets every goal, and the others miss it by one. -/
def letterOutcomes : Evaluator.Outcomes := fun fingerprint _ =>
  .ok (if fingerprint = letterA.fingerprint then .covered (some ⟨[1.0]⟩) else ⟨1.0, none⟩)

def letterProblem : Problem Replay Letter where
  factory := { fresh := do return if (← Draw.word) = 0 then letterA else letterB }
  executor := ⟨fun chromosome goal => .ok (letterOutcomes chromosome.fingerprint goal)⟩

/-- The letters are drawn and judged without a fault. -/
theorem letterProblem_calm : letterProblem.Calm where
  fresh _ _ _ h := by cases h
  biased _ _ _ _ h := by cases h
  mutate _ _ _ _ h := by cases h
  crossover _ _ _ _ _ h := by cases h
  execute _ _ := ⟨_, rfl⟩
  measured chromosome goal execution h := by
    cases h
    split
    · exact ⟨by decide, by decide⟩
    · exact ⟨by decide, by decide⟩
  uniform goal := by
    refine ⟨1, fun chromosome execution h hCovered => ?_⟩
    cases h
    by_cases hMeets : chromosome.fingerprint = letterA.fingerprint
    · rw [if_pos hMeets]
      rfl
    · rw [if_neg hMeets] at hCovered
      exact absurd hCovered (by decide)

def letterConfig : Config :=
  { trialConfig with selection := .rankBased }

def letters : Search Replay Letter :=
  made letterConfig (.start [0, 1] 0) [trialGoal]

def letterHit : Evaluated Letter :=
  ⟨letterA, letterA.fingerprint, trialGoal, .covered (some ⟨[1.0]⟩)⟩

def letterMiss : Evaluated Letter :=
  ⟨letterB, letterB.fingerprint, trialGoal, ⟨1.0, none⟩⟩

theorem execute_letter (chromosome : Chromosome Letter) (goal : Goal) :
    letterProblem.executor.execute chromosome goal =
      .ok (letterOutcomes chromosome.fingerprint goal) :=
  rfl

/-- The start draws the letter that meets the goal, and nothing is open any more. -/
theorem letters_start :
    ∃ later, start letterProblem letters = .ok () later ∧ later.remaining = [] := by
  have hEmpty : Evaluator.empty.Attested letterProblem.executor :=
    Memo.attested_empty letterProblem.executor
  obtain ⟨evaluator, hBatch, -⟩ :=
    Evaluator.exists_evaluateBatch execute_letter hEmpty [letterA, letterB] [trialGoal]
  let drawn : Search Replay Letter := { letters with source := .start [] 0, phase := .evaluating }
  let held : Search Replay Letter :=
    { drawn with
      evaluator
      archive := (drawn.archive.offer trialGoal letterA (some ⟨[1.0]⟩) 0).2 }
  have hRows : evaluating (Evaluator.evaluateBatch letterProblem.executor [letterA, letterB]
      [trialGoal]) drawn = .ok [[letterHit, letterMiss]] { drawn with evaluator } :=
    evaluating_of_ok hBatch
  have hRank : Diversity.rank trialGoal [letterHit] = .ok [0] := by decide +kernel
  have hOffer : offer trialGoal letterHit { drawn with evaluator } = .ok none held := rfl
  have hInductions : ([(trialGoal, [letterHit, letterMiss])].mapM fun entry =>
      induct letterProblem entry.1 entry.2) { drawn with evaluator } = .ok [⟨[], 1⟩] held :=
    inductions_of_hit rfl hRank hOffer
  have hPass : pass letterProblem [letterA, letterB] drawn = .ok _ _ :=
    (bind_of_ok hRows).trans ((bind_of_ok hInductions).trans rfl)
  exact ⟨_, (bind_of_ok hPass).trans rfl, rfl⟩

/-- A run on letters does not fail, whatever signals it gets, and nothing fails in the search that
it leaves. -/
theorem valid_search_never_fails_letters :
    letterConfig.validate = .ok () ∧ [trialGoal] ≠ [] ∧ letterProblem.Calm ∧
      candidateBytes * letterConfig.population.size ≤ Checked.listBytes ∧
      (letterConfig.selection = .rankBased →
        letterConfig.population.size * (letterConfig.population.size + 1) < Checked.countLimit) ∧
      2 * letterConfig.population.size + [trialGoal].length * letterConfig.multicoverTarget <
        Checked.countLimit ∧
      new letterConfig (.start [0, 1] 0) [trialGoal] = .ok letters ∧
      ∀ signals, ∃ next, (Command.run signals).perform letterProblem letters = .ok () next ∧
        Visited letterProblem letters next ∧
        ∀ command : Command Letter,
          (∃ later, command.perform letterProblem next = .ok () later) ∨
            ∃ final, command.perform letterProblem next = .error .endlessRejection final := by
  have hRoom : candidateBytes * letterConfig.population.size ≤ Checked.listBytes := by decide
  have hWeights : letterConfig.selection = .rankBased →
      letterConfig.population.size * (letterConfig.population.size + 1) < Checked.countLimit :=
    fun _ => by decide
  have hCounts : 2 * letterConfig.population.size +
      [trialGoal].length * letterConfig.multicoverTarget < Checked.countLimit := by decide
  have hGoals : [trialGoal] ≠ [] := by decide
  have hNew : new letterConfig (.start [0, 1] 0) [trialGoal] = .ok letters := rfl
  refine ⟨rfl, hGoals, letterProblem_calm, hRoom, hWeights, hCounts, hNew, fun signals => ?_⟩
  obtain ⟨later, hStart, hClosed⟩ := letters_start
  obtain ⟨result, reports, final, hRun⟩ := exists_run_of_closed hNew hStart hClosed signals
  have hPerform : (Command.run signals).perform letterProblem letters = .ok () final :=
    bind_of_ok hRun
  have hVisited : Visited letterProblem letters final := .next (.run signals) .initial hPerform
  obtain ⟨initial, hMade, hCommands⟩ := (@valid_search_never_fails Replay Letter _ _ _
    letterConfig rfl).2 (.start [0, 1] 0) [trialGoal] hGoals
  cases hNew.symm.trans hMade
  exact ⟨final, hPerform, hVisited,
    hCommands letterProblem letterProblem_calm hRoom hWeights hCounts final hVisited⟩

end Letters

end Search

end WitnessSearch
