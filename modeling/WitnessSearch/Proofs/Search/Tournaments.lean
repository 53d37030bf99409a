import Mathlib.Data.Int.CardIntervalMod
import WitnessSearch.Proofs.Ranking.Preference
import WitnessSearch.Proofs.Search.Stages
import WitnessSearch.Proofs.Search.Steady

/-! Candidates that are built for the open goals. The goals take turns, so no goal gets more than
one candidate more than another. Each candidate is the best of a tournament: contestants are drawn
for the goal and evaluated one after another, and the first of the closest ones wins. A tournament
is over as soon as a contestant meets the goal, since nothing can be closer. -/

namespace WitnessSearch

variable {ρ τ : Type}

/-- The fitness of an execution can be compared: it is a number, and it is not negative. -/
def Execution.IsDistance (execution : Execution) : Prop :=
  execution.fitness.isNaN = false ∧ 0.0 ≤ execution.fitness

/-- The factory and the executor end in none but the given faults, and all that the executor
measures are distances. -/
structure Problem.Comparable (problem : Problem ρ τ) (faults : Fault → Prop) : Prop where
  biased : ∀ goal source fault later,
    problem.factory.biased goal source = .error fault later → faults fault
  execute : ∀ chromosome goal fault,
    problem.executor.execute chromosome goal = .error fault → faults fault
  measured : ∀ chromosome goal execution,
    problem.executor.execute chromosome goal = .ok (.ok execution) → execution.IsDistance

namespace Search

section Turns

/-- The goals of so many candidates. After the last goal it is the turn of the first again. -/
def turns (goals : List Goal) (hGoals : goals ≠ []) (count : Nat) : List Goal :=
  (List.range count).map fun i =>
    goals.get ⟨i % goals.length, Nat.mod_lt i (List.length_pos_iff.mpr hGoals)⟩

variable {goals : List Goal} (hGoals : goals ≠ [])

theorem length_turns (count : Nat) : (turns goals hGoals count).length = count := by
  simp [turns]

/-- The turns go round the goals in their order. -/
theorem getElem?_turns {count i : Nat} {goal : Goal}
    (h : (turns goals hGoals count)[i]? = some goal) :
    goals[i % goals.length]? = some goal := by
  have hPlace : i % goals.length < goals.length := Nat.mod_lt i (List.length_pos_iff.mpr hGoals)
  obtain ⟨hLess, rfl⟩ := List.getElem?_eq_some_iff.mp h
  rw [List.getElem?_eq_getElem hPlace]
  simp [turns]

/-- The turns of a goal come round with the number of goals. -/
theorem count_turns (hNodup : goals.Nodup) (count : Nat) (place : Fin goals.length) :
    (turns goals hGoals count).count (goals.get place) =
      count / goals.length + if place < count % goals.length then 1 else 0 := by
  have hPlace : place % goals.length = place := Nat.mod_eq_of_lt place.isLt
  have hTurn : ∀ i, (goals.get ⟨i % goals.length,
      Nat.mod_lt i (List.length_pos_iff.mpr hGoals)⟩ == goals.get place) =
        decide (i ≡ place [MOD goals.length]) := by
    intro i
    rw [Bool.eq_iff_iff, beq_iff_eq, hNodup.get_inj_iff, decide_eq_true_iff, Nat.ModEq, hPlace,
      Fin.ext_iff]
  rw [turns, List.count, List.countP_map]
  have hCount := Nat.count_modEq_card (b := count) (List.length_pos_iff.mpr hGoals) place
  rw [hPlace] at hCount
  refine (List.countP_congr fun i _ => ?_).trans hCount
  rw [Function.comp_apply, hTurn]

/-- The numbers of turns of two goals differ by one at most. -/
theorem count_turns_le (hNodup : goals.Nodup) (count : Nat) {a b : Goal} (ha : a ∈ goals)
    (hb : b ∈ goals) :
    (turns goals hGoals count).count a ≤ (turns goals hGoals count).count b + 1 := by
  obtain ⟨i, rfl⟩ := List.get_of_mem ha
  obtain ⟨j, rfl⟩ := List.get_of_mem hb
  rw [count_turns hGoals hNodup, count_turns hGoals hNodup]
  split <;> split <;> omega

end Turns

variable [HasCode τ]

/-- Contestants that were drawn for a goal one after another, each evaluated before the next was
drawn. In between nothing but the source and the evaluator changes. -/
inductive Contests (problem : Problem ρ τ) (goal : Goal) :
    Search ρ τ → List (Evaluated τ) → Search ρ τ → Prop where
  | none (search : Search ρ τ) : Contests problem goal search [] search
  | next {search final : Search ρ τ} {contestant : Evaluated τ} {source : ρ}
      {evaluator : Evaluator} {later : List (Evaluated τ)}
      (drawn : problem.factory.biased goal search.source = .ok contestant.chromosome source)
      (evaluated : Evaluator.evaluate problem.executor contestant.chromosome goal
        search.evaluator = .ok contestant evaluator)
      (rest : Contests problem goal { search with source, evaluator } later final) :
      Contests problem goal search (contestant :: later) final

/-- Nobody is drawn after a contestant that meets the goal, nor after as many as there may be, and
drawing does not stop before. -/
structure Concludes (size : Nat) (contestants : List (Evaluated τ)) : Prop where
  length_le : contestants.length ≤ size
  missed : ∀ contestant ∈ contestants.dropLast, contestant.isCovered = false
  ended : contestants.length = size ∨ ∃ last ∈ contestants.getLast?, last.isCovered = true

/-- A tournament of at most so many contestants for a goal. It is won by the first drawn of those
with the least fitness. -/
structure Tournament (problem : Problem ρ τ) (size : Nat) (goal : Goal) (before : Search ρ τ)
    (contestants : List (Evaluated τ)) (winner : Chromosome τ) (after : Search ρ τ) : Prop where
  drawn : Contests problem goal before contestants after
  /-- The fitness of a contestant is the one on the goal. -/
  judged : ∀ contestant ∈ contestants, contestant.goal = goal ∧
    contestant.Faithful problem.executor ∧ after.evaluator.Records contestant
  concludes : Concludes size contestants
  won : ∃ i contestant, contestants[i]? = some contestant ∧ contestant.chromosome = winner ∧
    Fronts.IsFirstLeast (contestants.map (·.fitness)) i

section Contestants

variable {problem : Problem ρ τ} {goal : Goal} {before middle after : Search ρ τ}

theorem Contests.append {earlier later : List (Evaluated τ)}
    (h : Contests problem goal before earlier middle)
    (hLater : Contests problem goal middle later after) :
    Contests problem goal before (earlier ++ later) after := by
  induction h with
  | none => exact hLater
  | next hDrawn hEvaluated _ ih => exact .next hDrawn hEvaluated (ih hLater)

/-- A contest changes the source and the memo, and nothing else. -/
theorem Contests.aside {contestants : List (Evaluated τ)}
    (h : Contests problem goal before contestants after) :
    after = { before with source := after.source, evaluator := after.evaluator } := by
  induction h with
  | none => rfl
  | next _ _ _ ih => exact ih

/-- What is known of the contestants goes back to the executor and stays on record. -/
theorem Contests.judged {contestants : List (Evaluated τ)}
    (h : Contests problem goal before contestants after)
    (hMemo : before.evaluator.Attested problem.executor) :
    after.evaluator.Attested problem.executor ∧
      before.evaluator.memo.Within after.evaluator.memo ∧
      ∀ contestant ∈ contestants, contestant.goal = goal ∧
        contestant.Faithful problem.executor ∧ after.evaluator.Records contestant := by
  induction h with
  | none => exact ⟨hMemo, .refl _, nofun⟩
  | @next search _ contestant _ _ _ _ hEvaluated _ ih =>
      obtain ⟨⟨-, hGoal, hFaithful⟩, hAttested⟩ :=
        Evaluator.keeps_evaluate problem.executor _ goal hMemo hEvaluated
      obtain ⟨-, -, hRecords⟩ :=
        Evaluator.ensures_evaluate_records problem.executor _ goal trivial hEvaluated
      have hWithin := ((Evaluator.works_evaluate problem.executor _ goal).answer
        (Evaluator.Busy.refl search.evaluator) hEvaluated).2.reaches.within
      obtain ⟨hAfter, hLater, hRest⟩ := ih hAttested
      exact ⟨hAfter, hWithin.trans hLater,
        List.forall_mem_cons.mpr ⟨⟨hGoal, hFaithful, hRecords.later hLater⟩, hRest⟩⟩

end Contestants

section Moves

variable {α : Type} {faults : Fault → Prop} {before : Search ρ τ}

omit [HasCode τ] in
theorem confines_drawing {draw : Draw ρ α}
    (h : ∀ fault later, draw before.source = .error fault later → faults fault) :
    Confines (fun fault _ => faults fault) (· = before) (drawing draw) fun answer after =>
      ∃ source, draw before.source = .ok answer source ∧ after = { before with source } := by
  refine Confines.drawing ?_
  split
  · exact ⟨_, ‹_›, rfl⟩
  · exact h _ _ ‹_›

omit [HasCode τ] in
theorem confines_evaluating_from {evaluation : Evaluation α}
    (h : ∀ fault later, evaluation before.evaluator = .error fault later → faults fault) :
    Confines (fun fault _ => faults fault) (· = before) (evaluating evaluation)
      fun answer after => ∃ evaluator,
        evaluation before.evaluator = .ok answer evaluator ∧ after = { before with evaluator } := by
  refine Confines.evaluating ?_
  split
  · exact ⟨_, ‹_›, rfl⟩
  · exact h _ _ ‹_›

end Moves

section Rounds

/-- The better of two contestants, the first one if they are as good. -/
def fitter (best next : Evaluated τ) : Evaluated τ :=
  if next.fitness < best.fitness then next else best

omit [HasCode τ] in
/-- While the best contestant misses the goal, only one that meets it can end the tournament. -/
theorem isCovered_fitter {best next : Evaluated τ} (hBest : best.execution.IsDistance)
    (hNext : next.execution.IsDistance) (hMissed : best.isCovered = false) :
    (fitter best next).isCovered = next.isCovered := by
  unfold fitter
  split
  · rfl
  · rename_i hWorse
    rw [hMissed]
    refine (Bool.eq_false_iff.mpr fun hMeets => hWorse ?_).symm
    have hZero : ¬0.0 < next.fitness :=
      FloatOrder.not_lt_of_le (FloatOrder.le_iff_lt_or_beq.mpr (.inr hMeets))
    have hPositive : 0.0 < best.fitness := by
      refine (FloatOrder.le_iff_lt_or_beq.mp hBest.2).resolve_right fun hMet => ?_
      rw [FloatOrder.beq_comm] at hMet
      exact absurd (hMissed.symm.trans hMet) Bool.false_ne_true
    exact FloatOrder.lt_of_not_lt_of_lt hNext.1 (by decide) hBest.1 hZero hPositive

omit [HasCode τ] in
/-- The best contestant so far stands for all of them when it comes to the end of a tournament. -/
theorem Concludes.cons {size : Nat} {best next : Evaluated τ} {rest : List (Evaluated τ)}
    (h : Concludes size (fitter best next :: rest)) (hMissed : best.isCovered = false)
    (hSame : (fitter best next).isCovered = next.isCovered) :
    Concludes (size + 1) (best :: next :: rest) := by
  cases rest with
  | nil =>
      refine ⟨Nat.succ_le_succ h.length_le, List.forall_mem_singleton.mpr hMissed, ?_⟩
      refine h.ended.imp (congrArg (· + 1)) fun hLast => ?_
      obtain ⟨last, hMem, hMet⟩ := hLast
      obtain rfl : fitter best next = last := Option.some.inj hMem
      exact ⟨next, rfl, hSame.symm.trans hMet⟩
  | cons second rest =>
      obtain ⟨hBest, hRest⟩ := List.forall_mem_cons.mp h.missed
      refine ⟨Nat.succ_le_succ h.length_le, ?_, h.ended.imp (congrArg (· + 1)) id⟩
      exact List.forall_mem_cons.mpr ⟨hMissed, List.forall_mem_cons.mpr ⟨hSame.symm.trans hBest,
        hRest⟩⟩

variable {problem : Problem ρ τ} {faults : Fault → Prop} (h : problem.Comparable faults)
  (goal : Goal)
include h

theorem isDistance_of_faithful {candidate : Evaluated τ}
    (hFaithful : candidate.Faithful problem.executor) : candidate.execution.IsDistance :=
  hFaithful.attested.of_answers Execution.IsDistance (by constructor <;> decide)
    fun chromosome execution => h.measured chromosome _ execution

/-- A contestant is drawn and evaluated for its goal. -/
theorem confines_contestant (before : Search ρ τ) :
    Confines (fun fault _ => faults fault) (· = before) (contestant problem goal)
      fun drawn after => ∃ candidate, drawn = (candidate.chromosome, candidate.fitness) ∧
        Contests problem goal before [candidate] after := by
  refine Confines.bind (confines_drawing (h.biased goal _)) fun chromosome => ?_
  rintro _ ⟨source, hDrawn, rfl⟩
  refine Confines.bind (confines_evaluating_from fun fault later hFault => ?_)
    (fun candidate => Confines.pure ?_) rfl
  · obtain ⟨other, -, target, hExecute⟩ :=
      (Evaluator.works_evaluate problem.executor chromosome goal).struck hFault
    exact h.execute other target fault hExecute
  rintro _ ⟨evaluator, hEvaluated, rfl⟩
  obtain ⟨rfl, -, -⟩ :=
    Evaluator.ensures_evaluate_records problem.executor chromosome goal trivial hEvaluated
  exact ⟨candidate, rfl, .next hDrawn hEvaluated (.none _)⟩

/-- From the first contestant on. The best contestant may take the place of all before it. -/
theorem confines_challenge (rounds : Nat) {best : Evaluated τ}
    (hBest : best.execution.IsDistance) {before : Search ρ τ}
    (hMemo : before.evaluator.Attested problem.executor) :
    Confines (fun fault _ => faults fault) (· = before)
      (challenge problem goal rounds (best.chromosome, best.fitness)) fun winner after =>
        ∃ rest, Contests problem goal before rest after ∧ Concludes (rounds + 1) (best :: rest) ∧
          (rest.foldl fitter best).chromosome = winner := by
  induction rounds generalizing best before with
  | zero =>
      refine Confines.pure ?_
      rintro _ rfl
      exact ⟨[], .none _, ⟨Nat.le_refl 1, nofun, .inl rfl⟩, rfl⟩
  | succ rounds ih =>
      unfold challenge
      split
      · rename_i hMet
        refine Confines.pure ?_
        rintro _ rfl
        exact ⟨[], .none _, ⟨by simp, nofun, .inr ⟨best, rfl, hMet⟩⟩, rfl⟩
      · rename_i hMissed
        refine Confines.bind (confines_contestant h goal before) fun drawn => ?_
        rintro middle ⟨next, rfl, hNext⟩
        obtain ⟨hAttested, -, hJudged⟩ := hNext.judged hMemo
        have hDistance : next.execution.IsDistance :=
          isDistance_of_faithful h (List.forall_mem_singleton.mp hJudged).2.1
        have hFitter : (fitter best next).execution.IsDistance := by
          unfold fitter
          split
          · exact hDistance
          · exact hBest
        have hPair : (if next.fitness < best.fitness then (next.chromosome, next.fitness)
            else (best.chromosome, best.fitness)) =
            ((fitter best next).chromosome, (fitter best next).fitness) := by
          unfold fitter
          split <;> rfl
        have hLater := ih hFitter hAttested
        rw [← hPair] at hLater
        refine (hLater.weaken ?_) rfl
        rintro winner after ⟨rest, hRest, hConcludes, hWinner⟩
        have hOpen : best.isCovered = false := Bool.eq_false_iff.mpr hMissed
        exact ⟨next :: rest, hNext.append hRest,
          hConcludes.cons hOpen (isCovered_fitter hBest hDistance hOpen), hWinner⟩

/-- A biased candidate is the winner of a tournament of the configured size. -/
theorem confines_biasedCandidate {before : Search ρ τ}
    (hMemo : before.evaluator.Attested problem.executor)
    (hSize : 1 ≤ before.config.biasedTournamentSize) :
    Confines (fun fault _ => faults fault) (· = before) (biasedCandidate problem goal)
      fun winner after => (∃ contestants, Tournament problem before.config.biasedTournamentSize
        goal before contestants winner after) ∧
        after.evaluator.Attested problem.executor := by
  obtain ⟨rounds, hRounds⟩ := Nat.exists_eq_add_of_le' hSize
  refine Confines.get_bind ?_
  rintro search rfl
  refine Confines.bind (confines_contestant h goal search) fun drawn => ?_
  rintro middle ⟨first, rfl, hFirst⟩
  obtain ⟨hAttested, -, hJudged⟩ := hFirst.judged hMemo
  have hDistance : first.execution.IsDistance :=
    isDistance_of_faithful h (List.forall_mem_singleton.mp hJudged).2.1
  rw [hRounds, Nat.add_sub_cancel]
  refine (confines_challenge h goal rounds hDistance hAttested).weaken ?_ rfl
  rintro winner after ⟨rest, hRest, hConcludes, hWinner⟩
  have hAll : Contests problem goal search (first :: rest) after := hFirst.append hRest
  obtain ⟨hAfter, -, hFacts⟩ := hAll.judged hMemo
  have hAlone : Fronts.IsFirstLeast ([first].map (·.fitness)) 0 :=
    Fronts.isFirstLeast_singleton hDistance.1
  have hNumbers : ∀ contestant ∈ [first] ++ rest, contestant.fitness.isNaN = false :=
    fun contestant hMem => (isDistance_of_faithful h (hFacts contestant hMem).2.1).1
  obtain ⟨i, hLeast, hPlace⟩ := Fronts.isFirstLeast_foldl hAlone rfl hNumbers
  exact ⟨⟨first :: rest, hAll, hFacts, hConcludes, i, _, hPlace, hWinner, hLeast⟩, hAfter⟩

/-- Drawn one after the other, the candidates are winners of successive tournaments, each for the
goal whose turn it is. -/
theorem confines_turns {search : Search ρ τ} (hMemo : search.evaluator.Attested problem.executor)
    (hSize : 1 ≤ search.config.biasedTournamentSize) (goals : List Goal) :
    Confines (fun fault _ => faults fault) (· = search) (goals.mapM (biasedCandidate problem))
      (Successive (fun before goal winner after => ∃ contestants,
        Tournament problem search.config.biasedTournamentSize goal before contestants winner after)
        search goals) := by
  have hStep : ∀ goal ∈ goals, ∀ before, (before.evaluator.Attested problem.executor ∧
      before.config = search.config) → Confines (fun fault _ => faults fault) (· = before)
        (biasedCandidate problem goal) fun winner after => (∃ contestants, Tournament problem
          search.config.biasedTournamentSize goal before contestants winner after) ∧
            after.evaluator.Attested problem.executor ∧ after.config = search.config := by
    rintro goal - before ⟨hAttested, hConfig⟩
    rw [← hConfig] at hSize ⊢
    refine (confines_biasedCandidate h goal hAttested hSize).weaken ?_
    rintro winner after ⟨⟨contestants, hWon⟩, hAfter⟩
    exact ⟨⟨contestants, hWon⟩, hAfter, congrArg (·.config) hWon.drawn.aside⟩
  exact Confines.mapM hStep ⟨hMemo, rfl⟩

end Rounds

section Fresh

variable (problem : Problem ρ τ) {search : Search ρ τ} (hOpen : search.remaining ≠ [])
  (count : Nat)

/-- Where there is room for them, the candidates are built goal by goal. -/
theorem freshCandidates_roundRobin
    (hMode : search.config.population.initialization = .roundRobin)
    (hRoom : candidateBytes * count ≤ Checked.listBytes) :
    freshCandidates problem count search =
      (turns search.remaining hOpen count).mapM (biasedCandidate problem) search := by
  have hReserved : (ofExcept (Checked.reserve candidateBytes count) : SearchM ρ τ Unit) search =
      .ok () search := by
    rw [Checked.reserve_eq_ok_iff.mpr hRoom]
    rfl
  refine (bind_of_ok rfl).trans ?_
  rw [if_neg (List.isEmpty_iff.not.mpr hOpen)]
  refine (bind_of_ok hReserved).trans ?_
  rw [hMode]
  dsimp only
  rw [turns, List.mapM_map]
  refine congrFun (congrArg (List.mapM · (List.range count)) (funext fun i => ?_)) search
  rw [List.size_toArray, Checked.fetch_of_lt (Nat.mod_lt i (List.length_pos_iff.mpr hOpen))]
  rfl

include hOpen in
/-- Where there is none, nothing is drawn. -/
theorem freshCandidates_of_full (hFull : Checked.listBytes < candidateBytes * count) :
    freshCandidates problem count search = .error .capacityOverflow search := by
  have hReserved : (ofExcept (Checked.reserve candidateBytes count) : SearchM ρ τ Unit) search =
      .error .capacityOverflow search := by
    rw [Checked.reserve, if_neg (Nat.not_le.mpr hFull)]
    rfl
  refine (bind_of_ok rfl).trans ?_
  rw [if_neg (List.isEmpty_iff.not.mpr hOpen)]
  exact bind_of_error hReserved

end Fresh

section Pair

/-- Candidates are built for the goals in turn, with two contestants for each. -/
def pairConfig : Config where
  population := { size := 3, initialization := .roundRobin }
  biasedTournamentSize := 2

def pairGoals : List Goal :=
  [.located "g" "unit" "f" 1, .located "h" "unit" "f" 2]

/-- A search for two goals. The first contestant misses its goal, the second one meets it. -/
def pair : Search Replay InputVector :=
  made pairConfig (.start [1, 0, 1, 1] 0) pairGoals

theorem trialProblem_comparable : trialProblem.Comparable fun _ => False where
  biased _ _ _ _ h := by cases h
  execute _ _ _ h := by cases h
  measured chromosome goal execution h := by
    cases h
    unfold Execution.IsDistance
    split <;> decide

theorem pair_open : pair.remaining ≠ [] := by
  have hNew : new pairConfig (.start [1, 0, 1, 1] 0) pairGoals = .ok pair :=
    (new_of_validate _ _ rfl).trans (if_neg (List.cons_ne_nil _ _))
  exact remaining_ne_nil_of_new hNew

theorem pair_onward : Onward trialProblem.executor pair pair :=
  onward_made trialProblem.executor pairConfig _ pairGoals

end Pair

end Search

end WitnessSearch
