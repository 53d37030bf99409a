import WitnessSearch.Proofs.Search.Renewal

/-! Who has to make way for fresh candidates. The candidates that meet no goal apply for the places
that are left in the order of the ranking, no more of them than there are places. Only then are
those turned down that repeat a fingerprint. So fresh candidates do displace others, but no more of
them than there are repeats ahead of the cut. -/

namespace WitnessSearch

variable {ρ τ : Type}

/-- How a population was put together. -/
structure Filling (τ : Type) where
  /-- The survivors that are used again. -/
  reused : List (Chromosome τ)
  /-- The contenders that applied for a place. -/
  ahead : List (Search.Contender τ)
  /-- The survivors among them. -/
  ranked : List (Chromosome τ)
  fresh : List (Chromosome τ)

def Filling.survivors (filling : Filling τ) : List (Chromosome τ) :=
  filling.reused ++ filling.ranked

namespace Search

variable [HasCode τ] [RandomSource ρ] [Variation ρ τ] {problem : Problem ρ τ}

/-- The population after a pass was put together in this way. -/
structure Stages.Fills (stages : Stages ρ τ) (candidates : List (Chromosome τ))
    (before : Search ρ τ) (filling : Filling τ) (next : List (Chromosome τ))
    (after : Search ρ τ) : Prop where
  reused : filling.reused =
    (stages.recycled.foldl (Roster.add before.config.population.size) ⟨[], []⟩).members
  /-- As many of the first contenders apply as there are places left. -/
  ahead : List.Forall₂
    (fun i contender => (stages.pool before.remaining candidates)[i]? = some contender)
    (stages.ranking.order.take (before.config.population.size - filling.reused.length))
    filling.ahead
  ranked : filling.ranked.Sublist (filling.ahead.map (·.chromosome))
  distinct : (filling.survivors.map Chromosome.fingerprint).Nodup
  /-- Nothing but a repeated fingerprint keeps an applicant from a place. -/
  seated : ∀ fingerprint, fingerprint ∈ filling.survivors.map Chromosome.fingerprint ↔
    fingerprint ∈ filling.reused.map Chromosome.fingerprint ∨
      fingerprint ∈ filling.ahead.map (·.chromosome.fingerprint)
  population : next = filling.survivors ++ filling.fresh
  le : filling.reused.length ≤ before.config.population.size
  complete : after.remaining ≠ [] → next.length = before.config.population.size
  closed : after.remaining = [] → filling.fresh = []

/-- The survivors of a pass are the candidates to use again and the applicants, each fingerprint
once. -/
theorem exists_filling {candidates next : List (Chromosome τ)} {before after : Search ρ τ}
    {stages : Stages ρ τ} (h : stages.Lead problem candidates before next after)
    (hGoals : before.remaining.Nodup) :
    ∃ filling, stages.Fills candidates before filling next after := by
  obtain ⟨ahead, hAhead, hKept⟩ := ahead_of_survivors h.survived
  obtain ⟨-, -, hFull, fresh, hNext, -, -, hClosed⟩ := h.exists_fresh
  have hRemaining : after.remaining = stages.remaining := congrArg (·.remaining) (h.after_eq hGoals)
  have hRoster := ((Roster.fits_nil before.config.population.size).addAll stages.recycled).1
  generalize hReused : stages.recycled.foldl (Roster.add before.config.population.size) ⟨[], []⟩ =
    roster at hAhead hKept hRoster
  obtain ⟨hFits, ranked, hRanked, hMembers⟩ := hRoster.addAll (ahead.map (·.chromosome))
  have hRoom : roster.members.length + (ahead.map (·.chromosome)).length ≤
      before.config.population.size := by
    have hPlaces := hAhead.length_eq
    rw [List.length_take] at hPlaces
    have hSize := hRoster.length
    rw [List.length_map, ← hPlaces]
    omega
  have hDistinct := hFits.distinct
  rw [hMembers] at hKept hDistinct
  refine ⟨⟨roster.members, ahead, ranked, fresh⟩, {
    reused := by rw [hReused]
    ahead := hAhead
    ranked := hRanked
    distinct := hDistinct
    seated := fun fingerprint => ⟨?taken, ?placed⟩
    population := by rw [hNext, hKept, Filling.survivors]
    le := hRoster.length
    complete := fun hOpen => hFull (hRemaining ▸ hOpen)
    closed := fun hNone => hClosed (hRemaining ▸ hNone) }⟩
  case taken =>
    rw [Filling.survivors, List.map_append, List.mem_append]
    refine Or.imp_right fun hMem => ?_
    have hAll := (hRanked.map Chromosome.fingerprint).subset hMem
    rwa [List.map_map] at hAll
  case placed =>
    rw [Filling.survivors, ← hMembers]
    rintro (hMem | hMem)
    · rw [hMembers, List.map_append]
      exact List.mem_append_left _ hMem
    · obtain ⟨contender, hContender, rfl⟩ := List.mem_map.mp hMem
      exact hRoster.mem_addAll hRoom (List.mem_map_of_mem hContender)

/-- A candidate that met no goal and is lost found the places taken by applicants, and fresh
candidates get no more than the places of repeats. -/
theorem Stages.Fills.of_lost {candidates next : List (Chromosome τ)} {before after : Search ρ τ}
    {stages : Stages ρ τ} {filling : Filling τ}
    (h : stages.Fills candidates before filling next after)
    (hLead : stages.Lead problem candidates before next after) (hGoals : before.remaining.Nodup)
    (hNumeric : ∀ contender ∈ stages.pool before.remaining candidates, IsNumeric contender.fitness)
    {chromosome : Chromosome τ} (hMem : chromosome ∈ candidates)
    (hMissed : ∀ goal ∈ before.remaining, after.evaluator.meets chromosome goal = false)
    (hLost : chromosome.fingerprint ∉ filling.survivors.map Chromosome.fingerprint) :
    filling.reused.length + filling.ahead.length = before.config.population.size ∧
      filling.fresh.length = if after.remaining = [] then 0
        else filling.ahead.length - filling.ranked.length := by
  have hContender : chromosome ∈
      (stages.pool before.remaining candidates).map (·.chromosome) := by
    rw [Stages.pool, Search.ranked, map_chromosome_contenders _ (hLead.records hGoals),
      List.mem_filter]
    exact ⟨hMem, by simpa using hMissed⟩
  obtain ⟨contender, hPool, rfl⟩ := List.mem_map.mp hContender
  obtain ⟨i, hPlace⟩ := List.mem_iff_getElem?.mp hPool
  have hOrder : i ∈ stages.ranking.order := by
    rw [(perm_of_rankContenders hLead.ranked hNumeric).mem_iff, List.mem_range]
    exact (List.getElem?_eq_some_iff.mp hPlace).1
  have hCut : before.config.population.size - filling.reused.length <
      stages.ranking.order.length := by
    by_contra hAll
    have hAhead := h.ahead
    rw [List.take_of_length_le (Nat.le_of_not_lt hAll)] at hAhead
    obtain ⟨applicant, hApplies, hFound⟩ := exists_right_of_related hAhead hOrder
    obtain rfl : contender = applicant := Option.some.inj (hPlace.symm.trans hFound)
    exact hLost ((h.seated _).mpr (.inr (List.mem_map_of_mem hApplies)))
  have hLength := h.ahead.length_eq
  rw [List.length_take, Nat.min_eq_left hCut.le] at hLength
  have hFull : filling.reused.length + filling.ahead.length = before.config.population.size := by
    have hSize := h.le
    omega
  refine ⟨hFull, ?_⟩
  split
  · rename_i hClosed
    rw [h.closed hClosed, List.length_nil]
  · rename_i hOpen
    have hNext := h.complete hOpen
    rw [h.population, Filling.survivors, List.length_append, List.length_append] at hNext
    omega

/-- What fresh candidates take away. In any pass of a search with open goals, the first contenders
of the ranking apply for the places that the candidates to use again have left, as many as there are
places. A fingerprint survives exactly if it is that of a candidate to use again or of an applicant,
and fresh candidates take the places that are left, unless no goal is open any more. If a candidate
that met no goal is lost, then there was an applicant for every place, and the fresh candidates have
just the places of those applicants that repeat a fingerprint. So no candidate is lost beside fresh
ones unless an applicant repeats a fingerprint. -/
theorem fresh_take_places_of_repeats (config : Config) (source : ρ) (goals : List Goal)
    {initial search before after : Search ρ τ} {call : Call τ}
    {candidates next : List (Chromosome τ)}
    (hNew : Search.new config source goals = .ok initial)
    (hSearch : Reachable problem initial search)
    (hPasses : call.Passes problem search candidates before) (hOpen : before.remaining ≠ [])
    (hRun : pass problem candidates before = .ok next after) :
    before.config = config ∧
      ∃ (stages : Stages ρ τ) (filling : Filling τ),
        stages.Lead problem candidates before next after ∧
        stages.Fills candidates before filling next after ∧
        ((∀ contender ∈ stages.pool before.remaining candidates, IsNumeric contender.fitness) →
          ∀ chromosome ∈ candidates,
            (∀ goal ∈ before.remaining, after.evaluator.meets chromosome goal = false) →
            chromosome.fingerprint ∉ filling.survivors.map Chromosome.fingerprint →
            filling.reused.length + filling.ahead.length = before.config.population.size ∧
              filling.fresh.length = if after.remaining = [] then 0
                else filling.ahead.length - filling.ranked.length) := by
  obtain ⟨hConfig, -, hGoals⟩ := hPasses.setting hNew hSearch
  obtain ⟨stages, hLead⟩ := ensures_stages hOpen rfl hRun
  obtain ⟨filling, hFills⟩ := exists_filling hLead hGoals
  exact ⟨hConfig, stages, filling, hLead, hFills, fun hNumeric _ hMem hMissed hLost =>
    hFills.of_lost hLead hGoals hNumeric hMem hMissed hLost⟩

/-- The first pass of this search drops a repetition, and a fresh candidate takes its place. -/
theorem fresh_take_places_of_repeats_late :
    ∃ (before after : Search Replay InputVector),
      Search.new lateConfig (.start [1, 1, 0, 0, 0] 0) [trialGoal] = .ok late ∧
      Reachable trialProblem late late ∧
      Call.start.Passes trialProblem late [trialCall "h", trialCall "h"] before ∧
      before.remaining ≠ [] ∧
      pass trialProblem [trialCall "h", trialCall "h"] before =
        .ok [trialCall "h", trialCall "f"] after ∧
      before.config = lateConfig ∧
      ∃ (stages : Stages Replay InputVector) (filling : Filling InputVector),
        stages.Lead trialProblem [trialCall "h", trialCall "h"] before
          [trialCall "h", trialCall "f"] after ∧
        stages.Fills [trialCall "h", trialCall "h"] before filling
          [trialCall "h", trialCall "f"] after ∧
        filling.fresh ≠ [] := by
  obtain ⟨evaluator, ranking, -, hLate⟩ := late_lead
  have hNew : Search.new lateConfig (.start [1, 1, 0, 0, 0] 0) [trialGoal] = .ok late := rfl
  have hPasses : Call.start.Passes trialProblem late [trialCall "h", trialCall "h"] lateDrawn :=
    ⟨_, .inr ⟨List.cons_ne_nil _ _, rfl⟩, rfl⟩
  have hOpen : lateDrawn.remaining ≠ [] := List.cons_ne_nil _ _
  have hPass := pass_of_lead hLate hOpen
  obtain ⟨hConfig, stages, filling, hLead, hFills, -⟩ := fresh_take_places_of_repeats lateConfig
    (.start [1, 1, 0, 0, 0] 0) [trialGoal] hNew .initial hPasses hOpen hPass
  refine ⟨lateDrawn, _, hNew, .initial, hPasses, hOpen, hPass, hConfig, stages, filling, hLead,
    hFills, fun hNone => ?_⟩
  obtain rfl := hLead.unique hLate
  have hSeat : (trialCall "f").fingerprint ∈ filling.survivors.map Chromosome.fingerprint := by
    have hNext := hFills.population
    rw [hNone, List.append_nil] at hNext
    rw [← hNext]
    simp
  have hReused : filling.reused = [] := hFills.reused
  rcases (hFills.seated _).mp hSeat with hAgain | hAhead
  · rw [hReused] at hAgain
    cases hAgain
  · obtain ⟨contender, hApplies, hSame⟩ := List.mem_map.mp hAhead
    obtain ⟨hCandidate, -⟩ := missed_of_mem_contenders (hLead.records (List.nodup_singleton _))
      (List.mem_map_of_mem (subset_of_places hFills.ahead hApplies))
    have hPool : contender.chromosome = trialCall "h" := by simpa using hCandidate
    rw [hPool] at hSame
    exact absurd hSame (by decide +kernel)

section Crowd

/-- A call that misses the goal of the trial. -/
def idle (function : String) : Evaluated InputVector :=
  ⟨trialCall function, (trialCall function).fingerprint, trialGoal, ⟨1.0, none⟩⟩

def crowd : List (Chromosome InputVector) :=
  [trialCall "h", trialCall "h", trialCall "k"]

def crowdRow : List (Evaluated InputVector) :=
  [idle "h", idle "h", idle "k"]

def crowded : Search Replay InputVector :=
  { trial with source := .start [0] 0, phase := .evaluating }

/-- The crowd is cut to two before its repetition is dropped, so one survivor is left. -/
theorem crowd_survivors :
    let pool : List (Contender InputVector) := crowd.map fun chromosome => ⟨chromosome, [1.0]⟩
    ∃ ranking, rankContenders trialConfig.ranking crowded.archive pool = .ok ranking ∧
      survivors 2 [] pool ranking = .ok [trialCall "h"] :=
  exists_survivors_of_eval (by decide +kernel)

/-- There are two places. The first call and its repetition apply for them, the repetition is turned
down, and its place goes to a fresh candidate. The other call is lost. -/
theorem exists_displaced :
    ∃ after : Search Replay InputVector,
      crowded.remaining = [trialGoal] ∧ crowd = [trialCall "h", trialCall "h", trialCall "k"] ∧
      pass trialProblem crowd crowded = .ok [trialCall "h", trialCall "f"] after ∧
      after.evaluator.meets (trialCall "k") trialGoal = false ∧
      (trialCall "k").fingerprint ∉
        [trialCall "h", trialCall "f"].map Chromosome.fingerprint := by
  obtain ⟨evaluator, hBatch, -⟩ :=
    Evaluator.exists_evaluateBatch execute_trial attested_empty crowd [trialGoal]
  obtain ⟨ranking, hRanking, hKept⟩ := crowd_survivors
  let stages : Stages Replay InputVector :=
    ⟨[crowdRow], evaluator, [⟨[], 0⟩], { crowded with evaluator }, ranking, [trialCall "h"],
      { crowded with evaluator, source := .start [] 0 }⟩
  have hLead : stages.Lead trialProblem crowd crowded [trialCall "h", trialCall "f"] _ :=
    ⟨hBatch, inductions_of_misses rfl, hRanking, hKept, rfl, rfl⟩
  have hIdle : idle "k" ∈ crowdRow := by simp [crowdRow]
  have hRow := List.forall₂_cons.mp (hLead.records (List.nodup_singleton _))
  obtain ⟨_, -, -, -, hRecords⟩ := exists_left_of_related hRow.1 hIdle
  exact ⟨_, rfl, rfl, pass_of_lead hLead (List.cons_ne_nil _ _),
    hRecords.meets_eq.trans (by decide +kernel), by decide +kernel⟩

end Crowd

end Search

end WitnessSearch
