import WitnessSearch.Proofs.Archive.Suite
import WitnessSearch.Proofs.InputVectors
import WitnessSearch.Proofs.Search.Safety
import WitnessSearch.Proofs.Search.Substitution
import WitnessSearch.Proofs.Subject.Executions

/-! Searches on the subjects stay inside the input domain, so no arithmetic of a subject or of a
mutation overflows. The proof follows a search whose executor is stopped where the executor of the
subject would turn a candidate down. This search is never stopped, hence it is the search with the
executor of the subject. -/

namespace WitnessSearch

open Draw

/-- A draw had no end, or there was no room for a list, or the weights of a population that is as
large as the configuration wants it cannot be counted. -/
def Fault.OfResources (config : Config) (fault : Fault) : Prop :=
  fault = .endlessRejection ∨ fault = .capacityOverflow ∨
    fault = .countOverflow ∧ config.selection = .rankBased ∧
      Checked.countLimit ≤ config.population.size * (config.population.size + 1)

namespace Subject

/-- A call of the subject's function with as many arguments as it takes, each in the range that
inputs are drawn from. -/
structure InDomain (subject : Subject) (test : InputVector) : Prop where
  function : test.function = subject.function
  arity : test.args.length = subject.arity
  args : ∀ arg ∈ test.args, subject.low ≤ arg ∧ arg ≤ subject.high

/-- The factories for inputs of a subject: the one for single tests, and those for suites. -/
def FactoryFor (subject : Subject) (factory : InputFactory) : Prop :=
  factory = subject.inputFactory ∨ ∃ size, factory = subject.inputFactory.suites size

variable {ρ : Type} [RandomSource ρ] {subject : Subject} {factory : InputFactory}
  {width : String → Nat}

/-- A factory for a tame subject is proper, since its bounds are those of the subject. -/
theorem FactoryFor.proper (h : subject.FactoryFor factory) (hTame : subject.Tame width) :
    factory.Proper := by
  rcases h with rfl | ⟨size, rfl⟩ <;> exact ⟨hTame.ordered, hTame.span, hTame.small⟩

theorem FactoryFor.suiteSize_ne_zero (h : subject.FactoryFor factory) :
    factory.suiteSize ≠ some 0 := by
  rcases h with rfl | ⟨size, rfl⟩
  · exact Option.some_ne_none 0 |>.symm
  · intro hZero
    have hSize : max size 1 = 0 := Option.some.inj hZero
    omega

/-- What a factory for a subject makes is in the domain of the subject. -/
theorem FactoryFor.inDomain (h : subject.FactoryFor factory) {test : InputVector}
    (hMade : factory.Makes test) : subject.InDomain test := by
  rcases h with rfl | ⟨size, rfl⟩ <;> exact ⟨hMade.function, hMade.arity, hMade.between⟩

theorem InDomain.accepts {test : InputVector} (h : subject.InDomain test) : subject.Accepts test :=
  ⟨h.arity, h.args⟩

section Search

variable (hTame : subject.Tame width) (hFactory : subject.FactoryFor factory)
include hTame hFactory

/-- Nothing goes wrong on the tests that the factory makes, even if the executor must not turn any
candidate down. -/
theorem sturdy_insisting (config : Config) (fault : Fault) :
    (⟨factory.toFactory, subject.executor.insisting fault⟩ : Problem ρ InputVector).Sturdy
      (Fault.OfResources config) factory.Makes fun goal => width goal.id := by
  have hEndless : Fault.OfResources config .endlessRejection := .inl rfl
  have hProper := hFactory.proper hTame
  have hFresh : Yields (Fault.OfResources config) (factory.random : Draw ρ (Chromosome InputVector))
      (Chromosome.Wholly factory.Makes) :=
    InputFactory.yields_random hEndless hProper (.inr (.inl rfl)) hFactory.suiteSize_ne_zero
  exact {
    endless := hEndless
    fresh := hFresh
    biased := fun _ => hFresh
    mutate := fun test hMade => InputFactory.yields_mutate hEndless hProper hMade
    crossover := fun first second hFirst hSecond =>
      InputFactory.yields_crossover hEndless hFirst hSecond
    execute := by
      intro chromosome hMade goal raised hRaised
      have hTests : chromosome.Wholly subject.Accepts :=
        fun test hMem => (hFactory.inDomain (hMade test hMem)).accepts
      obtain ⟨execution, hAnswer⟩ := exists_execute hTame hTests goal
      rw [Executor.execute_insisting_iff.mpr hAnswer] at hRaised
      cases hRaised
    fits := fun chromosome goal execution hAnswer =>
      (sane_of_execute hTame (Executor.execute_insisting_iff.mp hAnswer)).toFits }

omit [RandomSource ρ] hFactory in
theorem length_goals_made_le_four (config : Config) (source : ρ) :
    (Search.made config source subject.goals : Search ρ InputVector).archive.goals.length ≤ 4 :=
  (Search.length_goals_made_le config source _).trans
    ((List.length_map _).trans_le hTame.few)

omit [RandomSource ρ] hFactory in
/-- The counts of a search on a subject are small: there are few goals, and a fingerprint appears at
most once among the witnesses of each. -/
theorem affordable_insisting (fault : Fault) {config : Config} (hConfig : config.validate = .ok ())
    (source : ρ) :
    Search.Affordable (subject.executor.insisting fault) (Fault.OfResources config) factory.Makes
      (Search.made config source subject.goals) where
  valid := hConfig
  room := .inr (.inr (.inl rfl))
  weights hRanked := (Nat.lt_or_ge _ _).imp_right fun hMany => .inr (.inr ⟨rfl, hRanked, hMany⟩)
  goals := by
    have hFew := length_goals_made_le_four hTame config source
    change _ < 0x10000000000000000
    omega
  tally hRoom known search hSearch fingerprint := by
    have hFew := length_goals_made_le_four hTame config source
    have hKnown : ∀ fingerprint goal execution, known.peek? fingerprint goal = some execution →
        (execution.observation.getD .empty == execution.observation.getD .empty) = true := by
      intro fingerprint goal execution hFound
      have hAttests := hSearch.trusted.attested _ _ _ (hSearch.trusted.within _ _ _ hFound)
      have hEach : ∀ chromosome execution,
          (subject.executor.insisting fault).execute chromosome goal = .ok (.ok execution) →
            (execution.observation.getD .empty == execution.observation.getD .empty) = true :=
        fun _ _ hAnswer =>
          (sane_of_execute hTame (Executor.execute_insisting_iff.mp hAnswer)).reflexive
      exact hAttests.of_answers (fun execution =>
        (execution.observation.getD .empty == execution.observation.getD .empty) = true) rfl hEach
    have hAppears := hSearch.sound.appearanceCount_le hSearch.ascending hKnown fingerprint
    rw [hSearch.grows.goals] at hAppears
    have hBytes : 64 * config.population.size ≤ 0x7fffffffffffffff := hRoom
    change 2 * config.population.size + _ < 0x10000000000000000
    omega

variable {config : Config} (hConfig : config.validate = .ok ()) {source : ρ}
  {search : Search ρ InputVector}
include hConfig

/-- From a secure state it does not matter whether the executor may turn candidates down. -/
theorem perform_insisting {fault : Fault} (hFault : ¬fault.OfResources config)
    (hSecure : Search.Secure (subject.executor.insisting fault) factory.Makes
      (Search.made config source subject.goals) search)
    {call : Search.Call InputVector} (hCall : call.Allowed factory.Makes) :
    call.perform ⟨factory.toFactory, subject.executor.insisting fault⟩ search =
      call.perform ⟨factory.toFactory, subject.executor⟩ search := by
  have hConfined := Search.confines_call (sturdy_insisting hTame hFactory config fault)
    (affordable_insisting hTame fault hConfig source) hCall
  have hAgree := Search.agree_call (subject.executor.restricts_insisting fault)
    (factory.toFactory : Factory ρ InputVector) call
  refine hAgree.eq_of_confines hConfined ?_ hSecure
  rintro raised _ hBroken rfl
  exact hFault hBroken.1

/-- All states of a search on a subject are secure, also if the executor must not turn any candidate
down. -/
theorem secure_of_reachable {fault : Fault} (hFault : ¬fault.OfResources config)
    (hSearch : Search.Reachable ⟨factory.toFactory, subject.executor⟩
      (Search.made config source subject.goals) search) :
    Search.Secure (subject.executor.insisting fault) factory.Makes
      (Search.made config source subject.goals) search := by
  induction hSearch with
  | initial => exact Search.secure_made _ _ config source _
  | @next search next call _ hLast ih =>
      have hMoves : call.Allowed factory.Makes →
          Search.Secure (subject.executor.insisting fault) factory.Makes
            (Search.made config source subject.goals) next := by
        intro hCall
        rw [← perform_insisting hTame hFactory hConfig hFault ih hCall] at hLast
        exact (Search.confines_call (sturdy_insisting hTame hFactory config fault)
          (affordable_insisting hTame fault hConfig source) hCall).answer ih hLast
      cases call with
      | start => exact hMoves trivial
      | step => exact hMoves trivial
      | reproduce first second =>
          obtain ⟨known, hSettled⟩ := ih.settled
          obtain ⟨_, middle, hRun, hDone⟩ := exists_of_run_bind hLast
          cases hDone
          obtain ⟨-, hKept⟩ := Search.insulated_populated.keeps_reproduce first second
            ⟨hSettled, ih.population⟩ hRun
          exact ⟨⟨known, hKept.1⟩, hKept.2⟩

end Search

/-- All tests that a search holds are calls in the domain of a subject. -/
structure Inside (subject : Subject) (search : Search ρ InputVector) : Prop where
  population : ∀ chromosome ∈ search.population, chromosome.Wholly subject.InDomain
  witnesses : ∀ goal, ∀ witness ∈ search.archive.witnesses goal,
    witness.chromosome.Wholly subject.InDomain
  suite : ∀ test ∈ search.archive.suite, subject.InDomain test

omit [RandomSource ρ] in
/-- A secure search stays inside of the domain, in its population and in its archive. -/
theorem inside_of_secure (hFactory : subject.FactoryFor factory) {executor : Executor InputVector}
    {origin search : Search ρ InputVector}
    (h : Search.Secure executor factory.Makes origin search) : subject.Inside search := by
  have hInside : ∀ chromosome : Chromosome InputVector, chromosome.Wholly factory.Makes →
      chromosome.Wholly subject.InDomain :=
    fun chromosome hMade test hMem => hFactory.inDomain (hMade test hMem)
  obtain ⟨known, hSettled⟩ := h.settled
  have hWitnesses : ∀ goal, ∀ witness ∈ search.archive.witnesses goal,
      witness.chromosome.Wholly subject.InDomain :=
    fun goal witness hMem => hInside _ (hSettled.sound.good goal witness hMem)
  refine ⟨fun chromosome hMem => hInside _ (h.population.good chromosome hMem), hWitnesses, ?_⟩
  intro test hTest
  obtain ⟨goal, -, witness, hHeld, hOf⟩ :=
    Archive.exists_witness_of_mem_suite hSettled.ascending hTest
  exact hWitnesses goal witness hHeld test hOf

/-- A search on a subject, from any valid configuration and any source, with single tests or with
suites of any size, stays inside the input domain. In every state that it can get into, all tests of
its population, of its witnesses and of the suite that is put together from them are calls of the
subject's function with as many arguments as it takes, each in the range of inputs. The subject runs
on the tests of the population, and the width of their mutations can be taken. When the search is
started or goes on from there, nothing can go wrong but that a draw has no end or that the
population is too large: for a list of it, or for the weights of a selection by rank. So no
arithmetic on inputs overflows. The executor never turns a candidate down: if it raised a fault
instead, whichever it is, nothing would change. -/
theorem search_stays_in_domain {subject : Subject} (hSubject : subject ∈ all)
    {factory : InputFactory} (hFactory : subject.FactoryFor factory) {config : Config}
    (hConfig : config.validate = .ok ()) (source : ρ) :
    ∃ initial : Search ρ InputVector, Search.new config source subject.goals = .ok initial ∧
      ∀ search, Search.Reachable ⟨factory.toFactory, subject.executor⟩ initial search →
        subject.Inside search ∧
        (∀ chromosome ∈ search.population, ∀ test ∈ chromosome.tests,
          (∃ trace, subject.run test.args = .ok trace) ∧ ∃ width, test.stepWidth = .ok width) ∧
        ∀ call : Search.Call InputVector, call = .start ∨ call = .step →
          ((∃ next, call.perform ⟨factory.toFactory, subject.executor⟩ search = .ok () next) ∨
            ∃ fault final, fault.OfResources config ∧
              call.perform ⟨factory.toFactory, subject.executor⟩ search = .error fault final) ∧
          ∀ fault : Fault, ¬fault.OfResources config →
            call.perform ⟨factory.toFactory, subject.executor.insisting fault⟩ search =
              call.perform ⟨factory.toFactory, subject.executor⟩ search := by
  obtain ⟨width, hTame⟩ := exists_tame hSubject
  have hGoals : subject.goals ≠ [] := by
    simp only [all, List.mem_cons, List.not_mem_nil, or_false] at hSubject
    rcases hSubject with rfl | rfl | rfl | rfl <;> decide
  refine ⟨Search.made config source subject.goals, ?_, ?_⟩
  · rw [Search.new_of_validate source subject.goals hConfig, if_neg hGoals]
  intro search hSearch
  have hOther : ¬Fault.noElements.OfResources config := by
    rintro (h | h | ⟨h, -⟩) <;> cases h
  have hSecure := secure_of_reachable hTame hFactory hConfig hOther hSearch
  refine ⟨inside_of_secure hFactory hSecure, fun chromosome hMem test hTest => ?_,
    fun call hCall => ?_⟩
  · have hMade := hSecure.population.good chromosome hMem test hTest
    obtain ⟨trace, hRun⟩ := exists_run hTame (hFactory.inDomain hMade).accepts
    exact ⟨⟨trace, hRun⟩, hMade.exists_stepWidth (hFactory.proper hTame)⟩
  · have hAllowed : call.Allowed factory.Makes := by
      rcases hCall with rfl | rfl <;> exact trivial
    refine ⟨?_, fun fault hFault => perform_insisting hTame hFactory hConfig hFault
      (secure_of_reachable hTame hFactory hConfig hFault hSearch) hAllowed⟩
    rw [← perform_insisting hTame hFactory hConfig hOther hSecure hAllowed]
    have hConfined := Search.confines_call (sturdy_insisting hTame hFactory config .noElements)
      (affordable_insisting hTame .noElements hConfig source) hAllowed
    cases hRun : call.perform
        ⟨factory.toFactory, subject.executor.insisting .noElements⟩ search with
    | ok _ next => exact .inl ⟨next, rfl⟩
    | error fault final => exact .inr ⟨fault, final, (hConfined.fault hSecure hRun).1, rfl⟩

/-- The first population of suites of triangles is in the domain, if there is one. -/
theorem search_stays_in_domain_triangle :
    triangle ∈ all ∧ triangle.FactoryFor (triangle.inputFactory.suites 3) ∧
      Search.trialConfig.validate = .ok () ∧
      ∃ initial : Search Replay InputVector,
        Search.new Search.trialConfig (.start [0, 1] 0) triangle.goals = .ok initial ∧
        ∀ next, Search.Call.start.perform ⟨(triangle.inputFactory.suites 3).toFactory,
            triangle.executor⟩ initial = .ok () next → triangle.Inside next := by
  have hSubject : triangle ∈ all := List.mem_cons_of_mem _ List.mem_cons_self
  have hFactory : triangle.FactoryFor (triangle.inputFactory.suites 3) := .inr ⟨3, rfl⟩
  obtain ⟨initial, hNew, hStates⟩ := @search_stays_in_domain Replay _ triangle hSubject _ hFactory
    Search.trialConfig rfl (.start [0, 1] 0)
  exact ⟨hSubject, hFactory, rfl, initial, hNew, fun next hStart =>
    (hStates next (.next .start .initial hStart)).1⟩

end Subject

end WitnessSearch
