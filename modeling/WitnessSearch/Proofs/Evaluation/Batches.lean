import WitnessSearch.Proofs.Evaluation.Judges
import WitnessSearch.Proofs.Evaluation.Transparency

/-! Batches against single evaluations. A batch looks up all pairs before it runs any, and it runs
one candidate for all that share its fingerprint. It comes to the same as evaluating the pairs one
by one for an executor that goes by a judge. The order in which a batch runs its pending pairs makes
no difference, and no execution is ever missing when the rows are put together. -/

namespace WitnessSearch.Evaluator

variable {τ : Type}

section Schedules

/-- A pair of a batch that has to be run, with its place in the plan. -/
structure Task (τ : Type) where
  place : Nat × Nat
  candidate : Named τ
  goal : Goal

def rowTasks (goal : Goal) (i : Nat) (row : List (Named τ × Origin)) : List (Task τ) :=
  row.zipIdx.filterMap fun ((candidate, origin), j) =>
    match origin with
    | .recalled _ => none
    | .pending => some ⟨(i, j), candidate, goal⟩

/-- The pairs that have to be run, in the order of the plan. -/
def tasks (plan : Plan τ) : List (Task τ) :=
  plan.zipIdx.flatMap fun ((goal, row), i) => rowTasks goal i row

/-- An order in which the tasks of a batch are run. -/
structure Schedule (τ : Type) where
  arrange : List (Task τ) → List (Task τ)
  perm : ∀ tasks, (arrange tasks).Perm tasks

/-- The order of the plan. -/
def Schedule.inOrder : Schedule τ :=
  ⟨id, fun _ => .refl _⟩

/-- The execution of a planned pair: the one that was recalled, or the one that was run for its
place. -/
def gather (fallback : Execution) (executed : List ((Nat × Nat) × Execution)) (place : Nat × Nat)
    (planned : Named τ × Origin) : Settled :=
  match planned.2 with
  | .recalled execution => ⟨planned.1.1, execution, false⟩
  | .pending => ⟨planned.1.1, (executed.lookup place).getD fallback, true⟩

/-- The execution of a fingerprint in a settled row, with the given one for what is missing. -/
def findOr (fallback : Execution) (row : List Settled) (fingerprint : Fingerprint) : Execution :=
  ((row.find? (·.fingerprint = fingerprint)).map (·.execution)).getD fallback

variable [HasCode τ]

/-- The executions of a batch whose tasks are run by a schedule. Each is put in its place, and they
are stored in the order of the plan. The fallback stands in for what is missing. -/
def resolveBy (schedule : Schedule τ) (fallback : Execution) (executor : Executor τ)
    (candidates : List (Named τ)) (goals : List Goal) : Evaluation (List (List Execution)) := do
  let distinct := firsts [] candidates
  let planned ← goals.mapM fun goal => do return (goal, ← plan distinct goal)
  let executed ← (schedule.arrange (tasks planned)).mapM fun task => do
    return (task.place, ← run executor task.candidate.2 task.goal)
  let settled := planned.mapIdx fun i (goal, row) =>
    (goal, row.mapIdx fun j entry => gather fallback executed (i, j) entry)
  settled.forM fun (goal, row) => rememberRow goal row
  return settled.map fun (_, row) =>
    candidates.map fun (fingerprint, _) => findOr fallback row fingerprint

def evaluateBatchBy (schedule : Schedule τ) (fallback : Execution) (executor : Executor τ)
    (chromosomes : List (Chromosome τ)) (goals : List Goal) :
    Evaluation (List (List (Evaluated τ))) := do
  let candidates := named chromosomes
  let rows ← resolveBy schedule fallback executor candidates goals
  return List.zipWith
    (fun goal row => List.zipWith
      (fun (fingerprint, chromosome) execution => ⟨chromosome, fingerprint, goal, execution⟩)
      candidates row)
    goals rows

end Schedules

section Plans

variable {judge : Judge τ} {memo : Memo}

def Judge.settled (judge : Judge τ) (goal : Goal) (planned : Named τ × Origin) : Settled :=
  match planned.2 with
  | .recalled execution => ⟨planned.1.1, execution, false⟩
  | .pending => ⟨planned.1.1, judge.execution planned.1.2 goal, true⟩

/-- The tasks of a row are its pending pairs, each with its place. -/
theorem mem_rowTasks {goal : Goal} {i : Nat} {row : List (Named τ × Origin)} {task : Task τ} :
    task ∈ rowTasks goal i row ↔
      task.goal = goal ∧ task.place.1 = i ∧
        row[task.place.2]? = some (task.candidate, .pending) := by
  rw [rowTasks, List.mem_filterMap]
  constructor
  · rintro ⟨⟨⟨candidate, origin⟩, j⟩, hMem, hTask⟩
    rw [List.mem_zipIdx_iff_getElem?] at hMem
    cases origin with
    | recalled execution => cases hTask
    | pending =>
        cases hTask
        exact ⟨rfl, rfl, hMem⟩
  · rintro ⟨rfl, rfl, hRow⟩
    exact ⟨((task.candidate, .pending), task.place.2), List.mem_zipIdx_iff_getElem?.mpr hRow,
      rfl⟩

/-- The tasks of a plan are the pending pairs of its rows, each with its place. -/
theorem mem_tasks {plan : Plan τ} {task : Task τ} :
    task ∈ tasks plan ↔ ∃ row, plan[task.place.1]? = some (task.goal, row) ∧
      row[task.place.2]? = some (task.candidate, .pending) := by
  rw [tasks, List.mem_flatMap]
  constructor
  · rintro ⟨⟨⟨goal, row⟩, i⟩, hMem, hTask⟩
    obtain ⟨rfl, rfl, hRow⟩ := mem_rowTasks.mp hTask
    exact ⟨row, List.mem_zipIdx_iff_getElem?.mp hMem, hRow⟩
  · rintro ⟨row, hPlan, hRow⟩
    exact ⟨((task.goal, row), task.place.1), List.mem_zipIdx_iff_getElem?.mpr hPlan,
      mem_rowTasks.mpr ⟨rfl, rfl, hRow⟩⟩

def Judge.outcomes (judge : Judge τ) (tasks : List (Task τ)) : List ((Nat × Nat) × Execution) :=
  tasks.map fun task => (task.place, judge.execution task.candidate.2 task.goal)

/-- In whatever order the tasks were run, what is found at the place of one is its outcome. Two
tasks at one place are of one goal and one candidate. -/
theorem lookup_outcomes {plan : Plan τ} {arranged : List (Task τ)}
    (hPerm : arranged.Perm (tasks plan)) {task : Task τ} (hTask : task ∈ tasks plan) :
    (judge.outcomes arranged).lookup task.place =
      some (judge.execution task.candidate.2 task.goal) := by
  apply lookup_of_agree
  · exact List.mem_map.mpr ⟨task, hPerm.mem_iff.mpr hTask, rfl⟩
  · intro execution hMem
    obtain ⟨other, hOther, hSame⟩ := List.mem_map.mp hMem
    obtain ⟨row, hPlan, hRow⟩ := mem_tasks.mp hTask
    obtain ⟨row', hPlan', hRow'⟩ := mem_tasks.mp (hPerm.mem_iff.mp hOther)
    obtain ⟨hPlace, rfl⟩ := Prod.mk.inj hSame
    rw [hPlace, hPlan] at hPlan'
    obtain ⟨hGoal, rfl⟩ := Prod.mk.inj (Option.some.inj hPlan')
    rw [hPlace, hRow] at hRow'
    obtain ⟨hCandidate, -⟩ := Prod.mk.inj (Option.some.inj hRow')
    rw [hGoal, hCandidate]

/-- Every pending pair is gathered from its own place, so nothing is ever missing. -/
theorem gather_eq_settled (fallback : Execution) {plan : Plan τ} {arranged : List (Task τ)}
    (hPerm : arranged.Perm (tasks plan)) :
    (plan.mapIdx fun i (goal, row) => (goal, row.mapIdx fun j entry =>
        gather fallback (judge.outcomes arranged) (i, j) entry)) =
      plan.map fun (goal, row) => (goal, row.map (judge.settled goal)) := by
  refine List.ext_getElem (by simp) fun i _ hi => ?_
  rw [List.getElem_mapIdx, List.getElem_map]
  refine congrArg (_, ·) (List.ext_getElem (by simp) fun j _ hj => ?_)
  rw [List.getElem_mapIdx, List.getElem_map]
  rw [List.length_map] at hi hj
  cases hEntry : plan[i].2[j] with
  | mk candidate origin =>
      cases origin with
      | recalled execution => rfl
      | pending =>
          have hTask : ⟨(i, j), candidate, plan[i].1⟩ ∈ tasks plan :=
            mem_tasks.mpr ⟨plan[i].2, List.getElem?_eq_getElem hi,
              (List.getElem?_eq_getElem hj).trans (congrArg some hEntry)⟩
          have hFound : (judge.outcomes arranged).lookup (i, j) = _ := lookup_outcomes hPerm hTask
          rw [gather, Judge.settled]
          dsimp only at hFound ⊢
          rw [hFound, Option.getD_some]
          rfl

variable [HasCode τ]

def Task.pair (task : Task τ) : Pair :=
  (task.candidate.2.fingerprint, task.goal)

/-- The pairs of the tasks of a row are those that the row waits for. -/
theorem pairs_rowTasks (goal : Goal) (i : Nat) (row : List (Named τ × Origin)) :
    (rowTasks goal i row).map Task.pair = row.flatMap (awaited goal) := by
  conv => rhs; rw [← List.zipIdx_map_fst 0 row]
  rw [rowTasks, List.flatMap_map, List.map_filterMap, List.filterMap_eq_flatMap_toList]
  refine List.flatMap_congr fun ⟨⟨candidate, origin⟩, j⟩ _ => ?_
  cases origin <;> rfl

/-- The tasks of a plan are the pairs that a batch hands over, in their order. -/
theorem pairs_tasks (plan : Plan τ) :
    (tasks plan).map Task.pair = plan.flatMap fun row => row.2.flatMap (awaited row.1) := by
  conv => rhs; rw [← List.zipIdx_map_fst 0 plan]
  rw [tasks, List.map_flatMap, List.flatMap_map]
  exact List.flatMap_congr fun ⟨row, i⟩ _ => pairs_rowTasks row.1 i row.2

/-- Running a candidate by a judge stores what the judge says and notes the pair. -/
theorem run_judged (chromosome : Chromosome τ) (goal : Goal) (evaluator : Evaluator) :
    run judge.executor chromosome goal evaluator =
      .ok (judge.execution chromosome goal)
        (evaluator.worked [] [(chromosome.fingerprint, goal)]) := by
  rw [run_eq, judge.verdict_executor]

omit [HasCode τ] in
/-- A computation that hands pairs over for every member of a list. -/
theorem mapM_worked {α β : Type} {next : α → Evaluation β} {answer : α → β}
    {handed : α → List Pair}
    (h : ∀ x evaluator, next x evaluator = .ok (answer x) (evaluator.worked [] (handed x)))
    (xs : List α) (evaluator : Evaluator) :
    xs.mapM next evaluator = .ok (xs.map answer) (evaluator.worked [] (xs.flatMap handed)) := by
  rw [mapM_of_ok h, foldl_worked, List.flatMap_eq_nil_iff.mpr fun _ _ => rfl]

/-- Running tasks by a judge gives the outcome of each at its place, in any order. -/
theorem runTasks_judged (tasks : List (Task τ)) (evaluator : Evaluator) :
    (tasks.mapM fun task => do
      return (task.place, ← run judge.executor task.candidate.2 task.goal) : Evaluation _)
        evaluator =
      .ok (judge.outcomes tasks) (evaluator.worked [] (tasks.map Task.pair)) := by
  have hTask : ∀ (task : Task τ) (state : Evaluator),
      (do return (task.place, ← run judge.executor task.candidate.2 task.goal) : Evaluation _)
          state =
        .ok (task.place, judge.execution task.candidate.2 task.goal)
          (state.worked [] [task.pair]) :=
    fun task state => (bind_of_ok (run_judged task.candidate.2 task.goal state)).trans rfl
  rw [mapM_worked hTask, ← List.map_eq_flatMap]
  rfl

/-- Settling a row by a judge runs the pairs that it waits for and leaves those it has. -/
theorem settle_judged (goal : Goal) (row : List (Named τ × Origin)) (evaluator : Evaluator) :
    settle judge.executor goal row evaluator =
      .ok (row.map (judge.settled goal)) (evaluator.worked [] (row.flatMap (awaited goal))) := by
  refine mapM_worked (fun planned state => ?_) row evaluator
  obtain ⟨candidate, origin⟩ := planned
  cases origin with
  | recalled execution => rfl
  | pending => exact (bind_of_ok (run_judged candidate.2 goal state)).trans rfl

/-- All rows are settled one after another, and the pairs that were run are those of the tasks. -/
theorem settleAll_judged (plan : Plan τ) (evaluator : Evaluator) :
    (plan.mapM fun (goal, row) => do return (goal, ← settle judge.executor goal row) :
      Evaluation _) evaluator =
      .ok (plan.map fun (goal, row) => (goal, row.map (judge.settled goal)))
        (evaluator.worked [] ((tasks plan).map Task.pair)) := by
  have hRow : ∀ (row : Goal × List (Named τ × Origin)) (state : Evaluator),
      (do return (row.1, ← settle judge.executor row.1 row.2) : Evaluation _) state =
        .ok (row.1, row.2.map (judge.settled row.1))
          (state.worked [] (row.2.flatMap (awaited row.1))) :=
    fun row state => (bind_of_ok (settle_judged row.1 row.2 state)).trans rfl
  rw [pairs_tasks]
  exact mapM_worked hRow plan evaluator

/-- With the tasks in the order of the plan, a batch by schedule is the batch itself. -/
theorem resolveBy_inOrder (candidates : List (Named τ)) (goals : List Goal) :
    resolveBy .inOrder .failed judge.executor candidates goals =
      resolve judge.executor candidates goals := by
  funext evaluator
  have hPlan := planAll_eq (firsts [] candidates) goals evaluator
  have hFind : ∀ row fingerprint, findOr .failed row fingerprint = find row fingerprint := by
    intro row fingerprint
    unfold findOr find
    cases row.find? (·.fingerprint = fingerprint) <;> rfl
  unfold resolveBy resolve
  refine (bind_of_ok hPlan).trans (Eq.trans ?_ (bind_of_ok hPlan).symm)
  refine (bind_of_ok (runTasks_judged _ _)).trans ?_
  refine Eq.trans ?_ (bind_of_ok (settleAll_judged _ _)).symm
  rw [gather_eq_settled .failed (Schedule.perm _ _)]
  simp only [hFind]
  rfl

/-- Running the tasks in the order of the plan is evaluating the batch as it is. -/
theorem evaluateBatchBy_inOrder (chromosomes : List (Chromosome τ)) (goals : List Goal) :
    evaluateBatchBy .inOrder .failed judge.executor chromosomes goals =
      evaluateBatch judge.executor chromosomes goals := by
  rw [evaluateBatchBy, resolveBy_inOrder, evaluateBatch]

end Plans

section Stored

variable {judge : Judge τ} {memo : Memo} {candidates : List (Named τ)}

/-- The first candidate with a fingerprint is kept. -/
theorem find?_firsts {seen : List Fingerprint} (candidates : List (Named τ))
    {fingerprint : Fingerprint} (h : fingerprint ∉ seen) :
    (firsts seen candidates).find? (·.1 = fingerprint) =
      candidates.find? (·.1 = fingerprint) := by
  induction candidates generalizing seen with
  | nil => rfl
  | cons first rest ih =>
      rw [firsts, List.find?_cons]
      split
      · rename_i hSeen
        have hOther : first.1 ≠ fingerprint := fun hSame => h (hSame ▸ hSeen)
        rw [decide_eq_false hOther, ih h]
      · by_cases hSame : first.1 = fingerprint
        · rw [List.find?_cons_of_pos (by simpa using hSame), decide_eq_true hSame]
        · rw [List.find?_cons_of_neg (by simpa using hSame), decide_eq_false hSame,
            ih (by simp [h, Ne.symm hSame])]

def Judge.settledFor (judge : Judge τ) (memo : Memo) (goal : Goal) (candidate : Named τ) :
    Settled :=
  judge.settled goal (candidate, originOf memo goal candidate)

/-- A candidate comes to what the memo has for it, and else to what the judge says. -/
theorem settledFor_execution (goal : Goal) (candidate : Named τ) :
    (judge.settledFor memo goal candidate).execution =
      (memo.peek? candidate.1 goal).getD (judge.execution candidate.2 goal) := by
  rw [Judge.settledFor, originOf]
  cases memo.peek? candidate.1 goal <;> rfl

theorem settledFor_fingerprint (goal : Goal) (candidate : Named τ) :
    (judge.settledFor memo goal candidate).fingerprint = candidate.1 := by
  rw [Judge.settledFor, originOf]
  cases memo.peek? candidate.1 goal <;> rfl

/-- Every planned row is settled candidate by candidate. -/
theorem map_planOf (distinct : List (Named τ)) (goals : List Goal) :
    ((planOf memo distinct goals).map fun (goal, row) => (goal, row.map (judge.settled goal))) =
      goals.map fun goal => (goal, distinct.map (judge.settledFor memo goal)) := by
  simp [planOf, Judge.settledFor, Function.comp_def]

/-- What a batch stores fills the gaps of the memo as the trials of all its candidates do. Only
pairs that are in the memo are left out of it, and none of those is a gap. -/
theorem lookup_additions (goals : List Goal) {p : Pair} (h : memo.peek? p.1 p.2 = none) :
    (additions (goals.map fun goal =>
        (goal, (firsts [] candidates).map (judge.settledFor memo goal)))).lookup p =
      (judge.trials candidates goals).lookup p := by
  calc
    _ = (judge.trials (firsts [] candidates) goals).lookup p := by
      rw [additions, List.flatMap_map, Judge.trials]
      refine lookup_flatMap_congr fun goal _ => ?_
      dsimp only
      rw [List.flatMap_map, List.map_eq_flatMap]
      refine lookup_flatMap_congr fun candidate _ => ?_
      rw [Judge.settledFor, originOf]
      cases hOld : memo.peek? candidate.1 goal with
      | none => rfl
      | some execution =>
          have hOther : p ≠ (candidate.1, goal) := by
            rintro rfl
            rw [h] at hOld
            cases hOld
          simp [Judge.settled, Settled.addition, List.lookup_cons,
            beq_eq_false_iff_ne.mpr hOther]
    _ = _ := by
      rw [lookup_trials, lookup_trials, find?_firsts candidates List.not_mem_nil]

/-- The fingerprint of a candidate is always found in a row of its batch. -/
theorem findOr_settled (fallback : Execution) (goal : Goal) {candidate : Named τ}
    (hMem : candidate ∈ candidates) :
    findOr fallback ((firsts [] candidates).map (judge.settledFor memo goal)) candidate.1 =
      judge.answer memo candidates goal candidate := by
  obtain ⟨first, hFirst, hName⟩ := exists_leader hMem
  have hFound : ((firsts [] candidates).map (judge.settledFor memo goal)).find?
      (·.fingerprint = candidate.1) = some (judge.settledFor memo goal first) := by
    rw [List.find?_map]
    simp only [Function.comp_def, settledFor_fingerprint]
    rw [find?_firsts candidates List.not_mem_nil, hFirst, Option.map_some]
  rw [findOr, hFound, Option.map_some, Option.getD_some, settledFor_execution, hName,
    Judge.answer, leader, hFirst, Option.getD_some]

variable [HasCode τ]

/-- By any schedule and with any fallback, every candidate gets the execution that is in the memo
for its fingerprint, or else that of the first candidate with its fingerprint. -/
theorem exists_resolveBy (schedule : Schedule τ) (fallback : Execution) (judge : Judge τ)
    (candidates : List (Named τ)) (goals : List Goal) (evaluator : Evaluator) :
    ∃ final, resolveBy schedule fallback judge.executor candidates goals evaluator =
        .ok (goals.map fun goal => candidates.map (judge.answer evaluator.memo candidates goal))
          final ∧
      Extended evaluator.memo (judge.trials candidates goals) final := by
  let pairs := pairsOf (firsts [] candidates) goals
  let settled := goals.map fun goal =>
    (goal, (firsts [] candidates).map (judge.settledFor evaluator.memo goal))
  let arranged := schedule.arrange (tasks (planOf evaluator.memo (firsts [] candidates) goals))
  let final := evaluator.worked (pairs.map .lookup ++ (additions settled).map insertion)
    (arranged.map Task.pair)
  have hFinal : Extended evaluator.memo (additions settled) final :=
    extended_worked evaluator pairs (additions settled) (arranged.map Task.pair)
  refine ⟨final, ?_, fun p => ?_⟩
  · unfold resolveBy
    refine (bind_of_ok (planAll_eq (firsts [] candidates) goals evaluator)).trans ?_
    refine (bind_of_ok (runTasks_judged _ _)).trans ?_
    rw [gather_eq_settled fallback (schedule.perm _), map_planOf, worked_worked]
    refine (bind_of_ok (rememberAll_eq settled _)).trans ?_
    rw [worked_worked, List.append_nil, List.append_nil, List.nil_append]
    refine congrArg (EStateM.Result.ok · final) ?_
    rw [List.map_map]
    exact List.map_congr_left fun goal _ => List.map_congr_left fun candidate hMem =>
      findOr_settled fallback goal hMem
  · rw [hFinal p]
    cases hOld : evaluator.memo.peek? p.1 p.2 with
    | some execution => rfl
    | none => rw [lookup_additions goals hOld]

/-- The answers of a batch, put together with candidates and goals, are the candidates bound to
their goals. -/
theorem zipWith_answers (memo : Memo) (chromosomes : List (Chromosome τ)) (goals : List Goal) :
    List.zipWith (fun goal row => List.zipWith
        (fun (fingerprint, chromosome) execution => ⟨chromosome, fingerprint, goal, execution⟩)
        (named chromosomes) row) goals
      (goals.map fun goal => (named chromosomes).map (judge.answer memo (named chromosomes) goal)) =
      goals.map fun goal => chromosomes.map (judge.bound memo chromosomes goal) := by
  rw [List.zipWith_map_right, List.zipWith_self]
  refine List.map_congr_left fun goal _ => ?_
  rw [List.zipWith_map_right, List.zipWith_self, named, List.map_map]
  rfl

/-- The matrix of a batch has a row for each candidate with its fitness on each goal. -/
theorem transpose_answers (memo : Memo) (chromosomes : List (Chromosome τ)) (goals : List Goal) :
    transpose chromosomes.length ((goals.map fun goal =>
        (named chromosomes).map (judge.answer memo (named chromosomes) goal)).map fun row =>
          row.map (·.fitness)) =
      chromosomes.map fun chromosome =>
        goals.map fun goal => (judge.bound memo chromosomes goal chromosome).fitness := by
  have hRows : ((goals.map fun goal =>
      (named chromosomes).map (judge.answer memo (named chromosomes) goal)).map fun row =>
        row.map (·.fitness)) =
      goals.map fun goal => chromosomes.map fun chromosome =>
        (judge.bound memo chromosomes goal chromosome).fitness := by
    simp [named, Judge.bound, Evaluated.fitness]
  rw [hRows, transpose_map]

/-- A batch comes to the same as evaluating its pairs one after the other, goal by goal, whatever
the memo had before and whether or not candidates with one fingerprint are judged alike. It has the
same rows and leaves the same executions in the memo. The fitness matrix leaves what the batch does
and has its fitness values with rows and columns exchanged. None of this depends on the order in
which the pending pairs are run or on what stands in for a missing execution. -/
theorem batch_agrees_with_each (judge : Judge τ) (evaluator : Evaluator)
    (chromosomes : List (Chromosome τ)) (goals : List Goal) :
    ∃ (rows : List (List (Evaluated τ))) (matrix : List (List Float)) (each batch : Evaluator),
      evaluateEach judge.executor chromosomes goals evaluator = .ok rows each ∧
      evaluateBatch judge.executor chromosomes goals evaluator = .ok rows batch ∧
      (∀ fingerprint goal,
        batch.memo.peek? fingerprint goal = each.memo.peek? fingerprint goal) ∧
      fitnessMatrix judge.executor chromosomes goals evaluator = .ok matrix batch ∧
      (matrix.length = chromosomes.length ∧ (∀ row ∈ matrix, row.length = goals.length) ∧
        ∀ i j : Nat, matrix[i]?.bind (·[j]?) = (rows[j]?.bind (·[i]?)).map Evaluated.fitness) ∧
      evaluateBatchBy .inOrder .failed judge.executor chromosomes goals =
        evaluateBatch judge.executor chromosomes goals ∧
      ∀ (schedule : Schedule τ) (fallback : Execution), ∃ final,
        evaluateBatchBy schedule fallback judge.executor chromosomes goals evaluator =
          .ok rows final ∧
        ∀ fingerprint goal,
          final.memo.peek? fingerprint goal = each.memo.peek? fingerprint goal := by
  let rows := goals.map fun goal => chromosomes.map (judge.bound evaluator.memo chromosomes goal)
  let matrix := chromosomes.map fun chromosome =>
    goals.map fun goal => (judge.bound evaluator.memo chromosomes goal chromosome).fitness
  have hBegun : Extended evaluator.memo (judge.trials (named chromosomes) []) evaluator :=
    extended_refl evaluator
  obtain ⟨each, hEach, hEachMemo⟩ := exists_evaluateEach chromosomes [] goals hBegun
  obtain ⟨batch, hResolve, hBatchMemo⟩ :=
    exists_resolveBy .inOrder .failed judge (named chromosomes) goals evaluator
  rw [resolveBy_inOrder] at hResolve
  have hBatch : evaluateBatch judge.executor chromosomes goals evaluator = .ok rows batch :=
    (bind_of_ok hResolve).trans
      (congrArg (EStateM.Result.ok · batch) (zipWith_answers evaluator.memo chromosomes goals))
  have hMatrix : fitnessMatrix judge.executor chromosomes goals evaluator = .ok matrix batch :=
    (bind_of_ok hResolve).trans
      (congrArg (EStateM.Result.ok · batch) (transpose_answers evaluator.memo chromosomes goals))
  have hSame : ∀ {final : Evaluator},
      Extended evaluator.memo (judge.trials (named chromosomes) goals) final →
      ∀ fingerprint goal, final.memo.peek? fingerprint goal = each.memo.peek? fingerprint goal :=
    fun hFinal fingerprint goal =>
      (hFinal (fingerprint, goal)).trans (hEachMemo (fingerprint, goal)).symm
  refine ⟨rows, matrix, each, batch, hEach, hBatch, hSame hBatchMemo, hMatrix, ⟨?_, ?_, ?_⟩,
    evaluateBatchBy_inOrder chromosomes goals, fun schedule fallback => ?_⟩
  · exact List.length_map _
  · intro row hRow
    obtain ⟨chromosome, -, rfl⟩ := List.mem_map.mp hRow
    exact List.length_map _
  · intro i j
    simp only [matrix, rows, List.getElem?_map]
    cases hChromosome : chromosomes[i]? <;> cases hGoal : goals[j]? <;> simp [hChromosome, hGoal]
  · obtain ⟨final, hRun, hFinal⟩ :=
      exists_resolveBy schedule fallback judge (named chromosomes) goals evaluator
    exact ⟨final, (bind_of_ok hRun).trans
      (congrArg (EStateM.Result.ok · final) (zipWith_answers evaluator.memo chromosomes goals)),
      hSame hFinal⟩

end Stored

end WitnessSearch.Evaluator
