import WitnessSearch.Proofs.Ranking.Demotion
import WitnessSearch.Proofs.Search.Course
import WitnessSearch.Proofs.Search.Inductions

/-! Searches that go on. As long as the draws and the executor do not go wrong, neither does a
start, a step or a whole run, and they leave a search from which the same can be said again. Every
list that is looked into by place has the place, every ranking is one of rows of equal length, and
counts stay in their range if the population and the archive are not too large. -/

namespace WitnessSearch.Search

open Draw

variable {ρ τ : Type}

section Contenders

variable {goals remaining : List Goal}

/-- A row of the open goals has an entry for each of them. -/
theorem length_openEntries {row : List Float} (h : row.length = goals.length) :
    (openEntries goals remaining row).length = (goals.filter (· ∈ remaining)).length := by
  unfold openEntries
  induction goals generalizing row with
  | nil => rfl
  | cons goal goals ih =>
      cases row with
      | nil => cases h
      | cons fitness row =>
          have hRest := ih (Nat.succ.inj h)
          rw [List.zip_cons_cons, List.filterMap_cons, List.filter_cons]
          by_cases hOpen : goal ∈ remaining
          · simpa [hOpen] using hRest
          · simpa [hOpen] using hRest

theorem mem_of_mem_openEntries {row : List Float} {fitness : Float}
    (h : fitness ∈ openEntries goals remaining row) : fitness ∈ row := by
  obtain ⟨⟨goal, value⟩, hEntry, hKept⟩ := List.mem_filterMap.mp h
  dsimp only at hKept
  split at hKept
  · cases hKept
    exact (List.of_mem_zip hEntry).2
  · cases hKept

variable {candidates : List (Chromosome τ)} {fitness : List (List Float)}

/-- A contender is a candidate with its own row, cut down to the goals that are open. -/
theorem exists_row_of_mem_contenders {contender : Contender τ}
    (h : contender ∈ contenders goals remaining candidates fitness) :
    contender.chromosome ∈ candidates ∧
      ∃ row ∈ fitness, contender.fitness = openEntries goals remaining row := by
  obtain ⟨⟨chromosome, row⟩, hEntry, hKept⟩ := List.mem_filterMap.mp h
  obtain ⟨hChromosome, hRow⟩ := List.of_mem_zip hEntry
  dsimp only at hKept
  split at hKept
  · cases hKept
  · cases hKept
    exact ⟨hChromosome, row, hRow, rfl⟩

/-- There are at most as many contenders as candidates. -/
theorem length_contenders_le :
    (contenders goals remaining candidates fitness).length ≤ candidates.length := by
  refine (List.length_filterMap_le _ _).trans ?_
  rw [List.length_zip]
  exact Nat.min_le_left _ _

end Contenders

variable [HasCode τ]

/-- The rows of the contenders on the goals that are still open are finite and of one length. -/
theorem measured_of_mem_contenders {executor : Executor τ} {arity : Goal → Nat}
    (hFits : ∀ chromosome goal execution, executor.execute chromosome goal = .ok (.ok execution) →
      execution.Fits (arity goal))
    {goals remaining : List Goal} {candidates : List (Chromosome τ)}
    {rows : List (List (Evaluated τ))}
    (hRows : List.Forall₂ (fun goal => List.Forall₂ (fun chromosome candidate =>
      candidate.chromosome = chromosome ∧ candidate.goal = goal ∧ candidate.Faithful executor)
      candidates) goals rows) {contender : Contender τ}
    (hMem : contender ∈ contenders goals remaining candidates
      (Evaluator.transpose candidates.length (rows.map fun row => row.map (·.fitness)))) :
    contender.fitness.length = (goals.filter (· ∈ remaining)).length ∧
      IsMeasured contender.fitness := by
  have hColumns : List.Forall₂ (fun goal => List.Forall₂ (fun chromosome fitness =>
      Evaluator.Scores executor chromosome goal fitness) candidates) goals
      (rows.map fun row => row.map (·.fitness)) := by
    refine List.forall₂_map_right_iff.mpr (hRows.imp fun goal row hRow => ?_)
    refine List.forall₂_map_right_iff.mpr (hRow.imp ?_)
    rintro _ candidate ⟨rfl, rfl, hTrue⟩
    exact ⟨candidate.execution, hTrue.fingerprint ▸ hTrue.attested, rfl⟩
  obtain ⟨-, row, hRow, hFitness⟩ := exists_row_of_mem_contenders hMem
  obtain ⟨_, -, hScores⟩ := exists_left_of_related (Evaluator.related_transpose hColumns) hRow
  rw [hFitness]
  exact ⟨length_openEntries hScores.length_eq.symm, fun value hValue =>
    isMeasured_of_scores (fun chromosome goal execution hAnswer =>
      (hFits chromosome goal execution hAnswer).distance) hScores value
        (mem_of_mem_openEntries hValue)⟩

/-- The candidates of an evaluated row are bound to the goal of the row. -/
theorem bound_of_evaluated {executor : Executor τ} {goals : List Goal}
    {candidates : List (Chromosome τ)} {rows : List (List (Evaluated τ))}
    (hRows : List.Forall₂ (fun goal => List.Forall₂ (fun chromosome candidate =>
      candidate.chromosome = chromosome ∧ candidate.goal = goal ∧ candidate.Faithful executor)
      candidates) goals rows) :
    ∀ entry ∈ goals.zip rows, ∀ candidate ∈ entry.2, candidate.goal = entry.1 := by
  intro entry hEntry candidate hMem
  obtain ⟨_, -, -, hGoal, -⟩ := exists_left_of_related (List.forall₂_zip hRows hEntry) hMem
  exact hGoal

/-- What meets an open goal in an evaluated row can be offered for it. -/
theorem offerable_of_evaluated {executor : Executor τ} {good : τ → Prop} {judged : Evaluator}
    {origin search : Search ρ τ} (hSearch : Onward executor origin search)
    {candidates : List (Chromosome τ)} (hGood : ∀ chromosome ∈ candidates, chromosome.Wholly good)
    {goal : Goal} (hOpen : goal ∈ search.remaining) {row : List (Evaluated τ)}
    (hFaithful : List.Forall₂ (fun chromosome candidate =>
      candidate.chromosome = chromosome ∧ candidate.goal = goal ∧ candidate.Faithful executor)
      candidates row) (hRecords : judged.RecordsRow candidates goal row)
    {candidate : Evaluated τ} (hMem : candidate ∈ row) (hCovered : candidate.isCovered = true) :
    Offerable executor good judged.memo origin goal candidate := by
  obtain ⟨_, hIn, rfl, hGoal, hTrue⟩ := exists_left_of_related hFaithful hMem
  obtain ⟨_, -, -, -, hRecord⟩ := exists_left_of_related hRecords hMem
  refine ⟨hSearch.mem_goals hOpen, ⟨hGoal, hTrue, hCovered⟩, hGood _ hIn, ?_⟩
  rw [← hRecord.fingerprint, ← hGoal]
  exact hRecord.execution

/-- Contenders with finite rows of one length are ranked, all of them. -/
theorem exists_rankContenders (config : RankingConfig) {archive : Archive τ}
    {pool : List (Contender τ)} {width : Nat}
    (hLength : ∀ contender ∈ pool, contender.fitness.length = width)
    (hMeasured : ∀ contender ∈ pool, IsMeasured contender.fitness)
    (hTally : ∀ contender ∈ pool, pool.length +
      archive.appearanceCount contender.chromosome.fingerprint < Checked.countLimit) :
    ∃ ranking, rankContenders config archive pool = .ok ranking ∧
      ranking.order.Perm (List.range pool.length) := by
  have hEqual : ∀ row ∈ pool.map (·.fitness), row.length = width :=
    List.forall_mem_map.mpr hLength
  obtain ⟨ranking, hRanking, hFronts⟩ := Ranking.ofRows_of_isMeasured
    config.preferenceSorting hEqual (List.forall_mem_map.mpr hMeasured)
  rw [List.length_map] at hFronts
  have hAnswer : ∃ answer, rankContenders config archive pool = .ok answer := by
    simp only [rankContenders, hRanking, ok_bind]
    split
    · have hLimit : ∀ candidate, ranking.fronts.length + (pool.map fun contender =>
          archive.appearanceCount contender.chromosome.fingerprint).getD candidate 0 <
            Checked.countLimit := by
        intro candidate
        rw [List.getD_eq_getElem?_getD, List.getElem?_map]
        cases hFound : pool[candidate]? with
        | none =>
            cases pool with
            | nil =>
                rw [Nat.le_zero.mp hFronts]
                change 0 < Checked.countLimit
                decide
            | cons contender rest =>
                have hFew := hTally contender List.mem_cons_self
                change ranking.fronts.length + 0 < _
                omega
        | some contender =>
            have hFew := hTally contender (List.mem_of_getElem? hFound)
            change ranking.fronts.length + archive.appearanceCount _ < _
            omega
      exact Ranking.exists_demote hLimit
    · exact ⟨ranking, rfl⟩
  obtain ⟨answer, hAnswer⟩ := hAnswer
  exact ⟨answer, hAnswer, perm_of_rankContenders hAnswer fun contender hMem =>
    (hMeasured contender hMem).isNumeric⟩

/-- There are survivors if there is room for them. -/
theorem exists_survivors {size : Nat} (recycled : List (Chromosome τ))
    {pool : List (Contender τ)} {ranking : Ranking}
    (hRoom : candidateBytes * size ≤ Checked.listBytes)
    (hMembers : ranking.order.Perm (List.range pool.length)) :
    ∃ kept, survivors size recycled pool ranking = .ok kept := by
  obtain ⟨hFits, -⟩ := (Roster.fits_nil size).addAll recycled
  let roster := recycled.foldl (Roster.add size) ⟨[], []⟩
  have hWords : Checked.wordBytes * (size - roster.members.length) ≤ Checked.listBytes := by
    have hBytes : 64 * size ≤ Checked.listBytes := hRoom
    change 8 * (size - roster.members.length) ≤ Checked.listBytes
    omega
  have hFetch : ∀ i ∈ ranking.order.take (size - roster.members.length), ∃ contender,
      Checked.fetch pool.toArray i = .ok contender ∧ True := by
    intro i hi
    have hPlace : i < pool.length :=
      List.mem_range.mp (hMembers.mem_iff.mp (List.mem_of_mem_take hi))
    exact ⟨pool[i], Checked.fetch_of_lt hPlace, trivial⟩
  obtain ⟨ranked, hRanked, -⟩ := exists_mapM_eq_ok hFetch
  have hRoster : Checked.subCounts size roster.members.length =
      .ok (size - roster.members.length) :=
    Checked.subCounts_eq_ok_iff.mpr ⟨hFits.length, rfl⟩
  refine ⟨((ranked.map (·.chromosome)).foldl (Roster.add size) roster).members, ?_⟩
  simp only [survivors, Checked.reserve, if_pos hRoom, ok_bind]
  rw [hRoster, ok_bind, ranking.select_of_room hWords, ok_bind, hRanked, ok_bind]
  rfl

/-- Nothing but the lack of room for them keeps survivors from being found. -/
theorem fault_of_survivors {size : Nat} {recycled : List (Chromosome τ)}
    {pool : List (Contender τ)} {ranking : Ranking} {faults : Fault → Prop}
    (hRoom : HasRoom faults candidateBytes size)
    (hMembers : ranking.order.Perm (List.range pool.length)) {fault : Fault}
    (h : survivors size recycled pool ranking = .error fault) : faults fault := by
  by_cases hFits : candidateBytes * size ≤ Checked.listBytes
  · obtain ⟨kept, hKept⟩ := exists_survivors recycled hFits hMembers
    rw [hKept] at h
    cases h
  · simp only [survivors, Checked.reserve, if_neg hFits] at h
    cases h
    exact hRoom.resolve_left hFits

/-- Survivors were given room beforehand. -/
theorem room_of_survivors {size : Nat} {recycled : List (Chromosome τ)}
    {pool : List (Contender τ)} {ranking : Ranking} {kept : List (Chromosome τ)}
    (h : survivors size recycled pool ranking = .ok kept) :
    candidateBytes * size ≤ Checked.listBytes := by
  by_contra hFull
  simp only [survivors, Checked.reserve, if_neg hFull] at h
  cases h

/-- A population of good candidates that was given the room it takes. -/
structure Populated (good : τ → Prop) (size : Nat) (population : List (Chromosome τ)) : Prop where
  good : ∀ chromosome ∈ population, chromosome.Wholly good
  length : population.length ≤ size
  room : population ≠ [] → candidateBytes * size ≤ Checked.listBytes

omit [HasCode τ] in
theorem populated_nil (good : τ → Prop) (size : Nat) :
    Populated good size ([] : List (Chromosome τ)) :=
  ⟨nofun, Nat.zero_le _, fun h => absurd rfl h⟩

/-- A search that may be asked for anything. -/
structure Secure (executor : Executor τ) (good : τ → Prop) (origin search : Search ρ τ) :
    Prop where
  settled : ∃ known, Settled executor good known origin search
  population : Populated good origin.config.population.size search.population

/-- The search has a valid configuration, and whatever it counts stays in the range of counts. The
lack of room for a population, or too many of its members to weigh, may count as faults. -/
structure Affordable (executor : Executor τ) (faults : Fault → Prop) (good : τ → Prop)
    (origin : Search ρ τ) : Prop where
  valid : origin.config.validate = .ok ()
  room : HasRoom faults candidateBytes origin.config.population.size
  weights : origin.config.selection = .rankBased →
    HasWeights faults origin.config.population.size
  goals : origin.archive.goals.length < UInt64.size
  tally : candidateBytes * origin.config.population.size ≤ Checked.listBytes →
    ∀ known search, Steady executor good known origin search → ∀ fingerprint,
      2 * origin.config.population.size + search.archive.appearanceCount fingerprint <
        Checked.countLimit

variable [RandomSource ρ] [Variation ρ τ] {problem : Problem ρ τ} {faults : Fault → Prop}
  {good : τ → Prop} {arity : Goal → Nat} (h : problem.Sturdy faults good arity) {known : Memo}
  {origin : Search ρ τ} (hOrigin : Affordable problem.executor faults good origin)
include h hOrigin

omit [RandomSource ρ] in
/-- A population is filled up to its size at most. -/
theorem Settled.confines_topUp {search : Search ρ τ}
    (hSearch : Settled problem.executor good known origin search) {members : List (Chromosome τ)}
    (hMembers : ∀ chromosome ∈ members, chromosome.Wholly good)
    (hLength : members.length ≤ origin.config.population.size) :
    Confines (Broken faults good) (· = search)
      (topUp problem origin.config.population.size members) fun next later =>
        ((∀ chromosome ∈ next, chromosome.Wholly good) ∧
          next.length ≤ origin.config.population.size) ∧
        Settled problem.executor good known origin later := by
  have hRoom : HasRoom faults candidateBytes (origin.config.population.size - members.length) :=
    hOrigin.room.imp_left fun hFits => (Nat.mul_le_mul_left _ (Nat.sub_le _ _)).trans hFits
  refine Confines.topUp (fun hShort hOpen => ?_) fun _ => ⟨⟨hMembers, hLength⟩, hSearch⟩
  refine (hSearch.confines_freshCandidates h hRoom hOpen).weaken ?_
  rintro fresh later ⟨⟨-, hCount, hFresh⟩, hLater⟩
  refine ⟨⟨List.forall_mem_append.mpr ⟨hMembers, hFresh⟩, ?_⟩, hLater⟩
  rw [List.length_append, hCount]
  omega

omit [RandomSource ρ] in
/-- Contenders with known executions are ranked, the best of them survive beside what is used again,
and the population is filled up. -/
theorem Settled.confines_nextPopulation {search : Search ρ τ}
    (hSearch : Settled problem.executor good known origin search.updated)
    {candidates : List (Chromosome τ)} {goals : List Goal} {rows : List (List (Evaluated τ))}
    {inductions : List (Induction τ)} (hGood : ∀ chromosome ∈ candidates, chromosome.Wholly good)
    (hLength : candidates.length ≤ 2 * origin.config.population.size)
    (hRoom : candidates ≠ [] →
      candidateBytes * origin.config.population.size ≤ Checked.listBytes)
    (hRows : List.Forall₂ (fun goal => List.Forall₂ (fun chromosome candidate =>
      candidate.chromosome = chromosome ∧ candidate.goal = goal ∧
        candidate.Faithful problem.executor) candidates) goals rows)
    (hRecycled : ∀ chromosome ∈ inductions.flatMap (·.recycled), chromosome.Wholly good) :
    Confines (Broken faults good) (· = search)
      (nextPopulation problem origin.config goals candidates rows inductions) fun next later =>
        Populated good origin.config.population.size next ∧
          Settled problem.executor good known origin later := by
  let pool := ranked goals search.updated.remaining candidates rows
  have hPool := fun contender (hMem : contender ∈ pool) =>
    measured_of_mem_contenders h.fits hRows hMem
  have hTally : ∀ contender ∈ pool, pool.length +
      search.archive.appearanceCount contender.chromosome.fingerprint < Checked.countLimit := by
    intro contender hMem
    have hSome : candidates ≠ [] := List.ne_nil_of_mem (exists_row_of_mem_contenders hMem).1
    have hFew := hOrigin.tally (hRoom hSome) _ _ hSearch.toSteady contender.chromosome.fingerprint
    have hContenders : pool.length ≤ candidates.length := length_contenders_le
    change _ + search.archive.appearanceCount _ < _ at hFew
    omega
  obtain ⟨best, hBest, hPerm⟩ := exists_rankContenders origin.config.ranking
    (fun contender hMem => (hPool contender hMem).1)
    (fun contender hMem => (hPool contender hMem).2) hTally
  refine Confines.nextPopulation (fun fault hFault => ?_) (fun ranking fault hRanked hFault => ?_)
    fun ranking kept hRanked hKept => ?_
  · cases hBest.symm.trans hFault
  · cases hBest.symm.trans hRanked
    exact ⟨fault_of_survivors hOrigin.room hPerm hFault, hSearch.trusted.logged⟩
  obtain ⟨-, hSize, reused, ranked, rfl, hReused, hRanked⟩ := survivors_eq_ok hKept
  have hMembers : ∀ chromosome ∈ reused ++ ranked, chromosome.Wholly good := by
    refine List.forall_mem_append.mpr ⟨fun chromosome hMem => ?_, fun chromosome hMem => ?_⟩
    · exact hRecycled chromosome (hReused.subset hMem)
    · obtain ⟨contender, hContender, rfl⟩ := List.mem_map.mp (hRanked hMem)
      exact hGood _ (exists_row_of_mem_contenders hContender).1
  refine (hSearch.confines_topUp h hOrigin hMembers hSize).weaken ?_
  rintro next later ⟨⟨hNext, hFull⟩, hLater⟩
  exact ⟨⟨hNext, hFull, fun _ => room_of_survivors hKept⟩, hLater.congr rfl rfl rfl rfl⟩

omit [RandomSource ρ] [Variation ρ τ] h hOrigin in
/-- Dropping the covered goals brings the open goals up to date with the archive. -/
theorem Steady.updated {executor : Executor τ} {search : Search ρ τ}
    (hSearch : Steady executor good known origin search) :
    Settled executor good known origin search.updated :=
  { hSearch with
    toUnderway := hSearch.toUnderway.updated.toUnderway
    current := hSearch.toUnderway.updated.current }

/-- A pass over good candidates leaves a population of good candidates. Once the batch has been
evaluated its executions are known, too. -/
theorem Settled.confines_pass {search : Search ρ τ}
    (hSearch : Settled problem.executor good known origin search)
    {candidates : List (Chromosome τ)} (hGood : ∀ chromosome ∈ candidates, chromosome.Wholly good)
    (hLength : candidates.length ≤ 2 * origin.config.population.size)
    (hRoom : candidates ≠ [] →
      candidateBytes * origin.config.population.size ≤ Checked.listBytes) :
    Confines (Broken faults good) (· = search) (pass problem candidates) fun next later =>
      Populated good origin.config.population.size next ∧
        ∃ known, Settled problem.executor good known origin later := by
  have hTake : Populated good origin.config.population.size
      (candidates.take origin.config.population.size) :=
    ⟨fun chromosome hMem => hGood chromosome (List.mem_of_mem_take hMem), List.length_take_le _ _,
      fun hSome => hRoom fun hNone => hSome (by rw [hNone, List.take_nil])⟩
  let Faithful (rows : List (List (Evaluated τ))) : Prop :=
    List.Forall₂ (fun goal => List.Forall₂ (fun chromosome candidate =>
      candidate.chromosome = chromosome ∧ candidate.goal = goal ∧
        candidate.Faithful problem.executor) candidates) search.remaining rows
  let judged (rows : List (List (Evaluated τ))) (later : Search ρ τ) : Prop :=
    ∃ evaluator : Evaluator, (Faithful rows ∧
      List.Forall₂ (evaluator.RecordsRow candidates) search.remaining rows) ∧
        Settled problem.executor good evaluator.memo origin later
  let dealt (rows : List (List (Evaluated τ))) (inductions : List (Induction τ))
      (later : Search ρ τ) : Prop :=
    ∃ known, (Faithful rows ∧
      ∀ chromosome ∈ inductions.flatMap (·.recycled), chromosome.Wholly good) ∧
        Steady problem.executor good known origin later
  have hBatch : Confines (Broken faults good) (· = search) (evaluating
      (Evaluator.evaluateBatch problem.executor candidates search.remaining)) judged :=
    ((confines_evaluating insulated_settled (Evaluator.trusted_evaluateBatch h.execute hGood
      hSearch.onward.nodup)).starting hSearch).weaken
        fun rows later hLater => ⟨later.evaluator, hLater.1, hLater.2.renew⟩
  have hInductions : ∀ rows, Confines (Broken faults good) (judged rows)
      ((search.remaining.zip rows).mapM fun entry => induct problem entry.1 entry.2)
      (dealt rows) := by
    refine fun rows => Confines.of_exists fun evaluator => Confines.of_fact fun hRows => ?_
    have hOfferable : ∀ entry ∈ search.remaining.zip rows, ∀ candidate ∈ entry.2,
        candidate.isCovered = true →
          Offerable problem.executor good evaluator.memo origin entry.1 candidate :=
      fun entry hEntry candidate hMem => offerable_of_evaluated hSearch.onward hGood
        (List.of_mem_zip hEntry).1 (List.forall₂_zip hRows.1 hEntry)
        (List.forall₂_zip hRows.2 hEntry) hMem
    refine ((guards_inductions h (bound_of_evaluated hRows.1) hOfferable).strengthen
      fun _ hLater => hLater.toSteady).weaken fun inductions later hLater => ?_
    exact ⟨_, ⟨hRows.1, hLater.1⟩, hLater.2⟩
  refine Confines.pass (fun _ => ⟨hSearch.config ▸ hTake, known, hSearch⟩) (fun _ => hBatch)
    hInductions fun rows inductions => Confines.of_exists fun known => Confines.of_fact
      fun hRows => Confines.of_state fun later hLater => ?_
  rw [hSearch.config]
  exact (hLater.updated.confines_nextPopulation h hOrigin hGood hLength hRoom hRows.1
    hRows.2).weaken fun _ _ hNext => ⟨hNext.1, known, hNext.2⟩

end WitnessSearch.Search
