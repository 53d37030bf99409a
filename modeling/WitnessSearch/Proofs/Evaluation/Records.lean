import WitnessSearch.Proofs.Evaluation.Works

/-! What an evaluator answers is what it has on record. The memo never changes its mind about a
pair, so an execution that was handed out can be looked up ever after. In a batch the executions are
handed out before they are stored, and two candidates with one fingerprint get one execution; that
the first write wins does no harm there, since no pair of a batch is stored twice. -/

namespace WitnessSearch

variable {τ : Type} [HasCode τ]

namespace Evaluator

/-- The evaluator has the execution of the candidate on record. -/
structure Records (evaluator : Evaluator) (candidate : Evaluated τ) : Prop where
  fingerprint : candidate.fingerprint = candidate.chromosome.fingerprint
  execution : evaluator.memo.peek? candidate.fingerprint candidate.goal = some candidate.execution

/-- What is on record stays on record as the memo grows. Only the growth of the memo matters, not
what else happens to the evaluator. -/
theorem Records.later {before after : Evaluator} {candidate : Evaluated τ}
    (h : before.Records candidate) (hWithin : before.memo.Within after.memo) :
    after.Records candidate :=
  ⟨h.fingerprint, hWithin _ _ _ h.execution⟩

/-- Whether a candidate met a goal, as far as is on record. -/
def meets (evaluator : Evaluator) (chromosome : Chromosome τ) (goal : Goal) : Bool :=
  (evaluator.memo.peek? chromosome.fingerprint goal).any (·.isCovered)

/-- Whether a candidate was evaluated against a goal, as far as is on record. -/
def knows (evaluator : Evaluator) (chromosome : Chromosome τ) (goal : Goal) : Bool :=
  (evaluator.memo.peek? chromosome.fingerprint goal).isSome

/-- A candidate on record is looked up again with the verdict it was handed out with. -/
theorem Records.meets_eq {evaluator : Evaluator} {candidate : Evaluated τ}
    (h : evaluator.Records candidate) :
    evaluator.meets candidate.chromosome candidate.goal = candidate.isCovered := by
  rw [meets, ← h.fingerprint, h.execution]
  rfl

/-- The pair of a candidate on record is in the memo. -/
theorem Records.knows {evaluator : Evaluator} {candidate : Evaluated τ}
    (h : evaluator.Records candidate) :
    evaluator.knows candidate.chromosome candidate.goal = true := by
  rw [Evaluator.knows, ← h.fingerprint, h.execution]
  rfl

/-- An evaluated row has an entry for each candidate, bound to the goal and on record. -/
abbrev RecordsRow (evaluator : Evaluator) (chromosomes : List (Chromosome τ)) (goal : Goal)
    (row : List (Evaluated τ)) : Prop :=
  List.Forall₂ (fun chromosome candidate => candidate.chromosome = chromosome ∧
    candidate.goal = goal ∧ evaluator.Records candidate) chromosomes row

/-- A row on record stays on record as the memo grows. -/
theorem RecordsRow.later {before after : Evaluator} {chromosomes : List (Chromosome τ)}
    {goal : Goal} {row : List (Evaluated τ)} (h : before.RecordsRow chromosomes goal row)
    (hWithin : before.memo.Within after.memo) : after.RecordsRow chromosomes goal row :=
  List.Forall₂.imp (fun _ _ hOne => ⟨hOne.1, hOne.2.1, hOne.2.2.later hWithin⟩) h

/-- Once every row of a matrix is on record, every pair of its chromosomes and goals is known. -/
theorem knows_of_rows {evaluator : Evaluator} {chromosomes : List (Chromosome τ)}
    {goals : List Goal} {rows : List (List (Evaluated τ))}
    (h : List.Forall₂ (evaluator.RecordsRow chromosomes) goals rows) {chromosome : Chromosome τ}
    (hMem : chromosome ∈ chromosomes) {goal : Goal} (hGoal : goal ∈ goals) :
    evaluator.knows chromosome goal = true := by
  obtain ⟨row, -, hRow⟩ := exists_right_of_related h hGoal
  obtain ⟨candidate, -, rfl, rfl, hRecords⟩ := exists_right_of_related hRow hMem
  exact hRecords.knows

/-- The candidates of a row that meet its goal are those that do so on record. -/
theorem map_filter_isCovered {evaluator : Evaluator} {chromosomes : List (Chromosome τ)}
    {goal : Goal} {row : List (Evaluated τ)} (h : evaluator.RecordsRow chromosomes goal row) :
    (row.filter (·.isCovered)).map (·.chromosome) =
      chromosomes.filter (evaluator.meets · goal) := by
  have hChromosomes : row.map (·.chromosome) = chromosomes :=
    map_eq_of_related (h.imp fun _ _ hOne => hOne.1)
  rw [← hChromosomes, List.filter_map]
  congr 1
  apply List.filter_congr
  intro candidate hMem
  obtain ⟨_, -, -, rfl, hRecords⟩ := exists_left_of_related h hMem
  exact hRecords.meets_eq.symm

/-- The memo of the evaluator is the given one with some executions put in, one after the other. -/
def Extended (memo : Memo) (stored : List (Pair × Execution)) (evaluator : Evaluator) : Prop :=
  ∀ p : Pair, evaluator.memo.peek? p.1 p.2 = (memo.peek? p.1 p.2).or (stored.lookup p)

variable {memo : Memo} {stored : List (Pair × Execution)}

theorem extended_refl (evaluator : Evaluator) : Extended evaluator.memo [] evaluator :=
  fun _ => (Option.or_none).symm

/-- Work extends a memo by what is stored in it. Lookups leave no trace in the extension. -/
theorem extended_worked (before : Evaluator) (pairs : List Pair)
    (stored : List (Pair × Execution)) (handed : List Pair) :
    Extended before.memo stored
      (before.worked (pairs.map .lookup ++ stored.map insertion) handed) := by
  intro p
  rw [worked, Memo.peek?_serveAll, Memo.earliest, insertions_batch]

/-- A candidate that is evaluated alone is on record from then on. -/
theorem ensures_evaluate_records (executor : Executor τ) (chromosome : Chromosome τ) (goal : Goal) :
    Ensures (fun _ => True) (evaluate executor chromosome goal) fun candidate evaluator =>
      candidate.chromosome = chromosome ∧ candidate.goal = goal ∧ evaluator.Records candidate := by
  rintro before candidate after - hRun
  rw [evaluate_eq] at hRun
  have hMemo := extended_worked before [(chromosome.fingerprint, goal)]
  split at hRun
  · rename_i hFound
    cases hRun
    refine ⟨rfl, rfl, rfl, (hMemo [] [] (chromosome.fingerprint, goal)).trans ?_⟩
    exact Option.or_none.trans hFound
  · rename_i execution hNone _
    cases hRun
    refine ⟨rfl, rfl, rfl, (hMemo [((chromosome.fingerprint, goal), execution)] _
      (chromosome.fingerprint, goal)).trans ?_⟩
    rw [hNone, Option.none_or, List.lookup_cons_self]
  · cases hRun

section Batch

variable {executor : Executor τ} {candidates : List (Named τ)} {goals : List Goal}
  {before after : Evaluator} {settled : List (Goal × List Settled)} {rows : List (List Execution)}

omit [HasCode τ] in
/-- First candidates and goals without repetitions make pairs without repetitions. -/
theorem nodup_pairsOf (candidates : List (Named τ)) (hGoals : goals.Nodup) :
    (pairsOf (firsts [] candidates) goals).Nodup := by
  rw [pairsOf, List.nodup_flatMap]
  constructor
  · intro goal _
    have hPairs : (firsts [] candidates).map (fun candidate => (candidate.1, goal)) =
        ((firsts [] candidates).map (·.1)).map (·, goal) := by
      rw [List.map_map]
      rfl
    rw [hPairs]
    exact (nodup_firsts [] candidates).1.map fun _ _ hSame => congrArg Prod.fst hSame
  · refine hGoals.imp fun hOther p hFirst hLater => hOther ?_
    obtain ⟨_, -, rfl⟩ := List.mem_map.mp hFirst
    obtain ⟨_, -, hSame⟩ := List.mem_map.mp hLater
    exact (congrArg Prod.snd hSame).symm

/-- After a batch the memo has what the batch found for every fingerprint. No pair of a batch is
stored twice, so it does no harm that the first write wins. -/
theorem Resolves.peek? (h : Resolves executor candidates goals before settled rows after)
    (hGoals : goals.Nodup) {row : Goal × List Settled} (hRow : row ∈ settled) {entry : Settled}
    (hEntry : entry ∈ row.2) :
    after.memo.peek? entry.fingerprint row.1 = some entry.execution := by
  have hMemo : Extended before.memo (additions settled) after := by
    rw [h.after_eq]
    exact extended_worked before _ _ _
  obtain ⟨candidate, -, hName, hExecution⟩ := h.exists_candidate hRow hEntry
  rw [hMemo (entry.fingerprint, row.1)]
  rcases hExecution with ⟨hFound, -⟩ | ⟨hNone, hFresh, -⟩
  · rw [hName, hFound, Option.some_or]
  · have hAdded : ((entry.fingerprint, row.1), entry.execution) ∈ entry.addition row.1 := by
      simp [Settled.addition, hFresh]
    have hMem : ((entry.fingerprint, row.1), entry.execution) ∈ additions settled :=
      List.mem_flatMap.mpr ⟨row, hRow, List.mem_flatMap.mpr ⟨entry, hEntry, hAdded⟩⟩
    have hNodup : ((additions settled).map (·.1)).Nodup := by
      rw [h.keys_additions]
      exact (nodup_pairsOf candidates hGoals).filter _
    rw [hName, hNone, Option.none_or, ← hName, lookup_of_mem hNodup hMem]

/-- Every candidate of an evaluated batch is on record afterwards, for every goal. -/
theorem ensures_evaluateBatch_records (executor : Executor τ) (chromosomes : List (Chromosome τ))
    (hGoals : goals.Nodup) :
    Ensures (fun _ => True) (evaluateBatch executor chromosomes goals) fun rows evaluator =>
      List.Forall₂ (evaluator.RecordsRow chromosomes) goals rows := by
  have hResolve : Ensures (fun _ => True) (resolve executor (named chromosomes) goals)
      fun rows evaluator => List.Forall₂ (fun goal => List.Forall₂ (fun candidate execution =>
        evaluator.memo.peek? candidate.1 goal = some execution) (named chromosomes)) goals rows := by
    intro before rows after _ hRun
    obtain ⟨settled, hResolves⟩ := exists_resolves hRun
    exact hResolves.forall_rows (fun fingerprint goal execution =>
      after.memo.peek? fingerprint goal = some execution) fun row hRow entry =>
        hResolves.peek? hGoals hRow
  refine Ensures.bind hResolve fun rows => ?_
  refine Ensures.pure fun evaluator h => related_zipWith h ?_
  intro goal row hRow
  have hNamed : List.Forall₂ (fun (candidate : Named τ) (evaluated : Evaluated τ) =>
      evaluated.chromosome = candidate.2 ∧ evaluated.goal = goal ∧
        (candidate.Proper → evaluator.Records evaluated)) (named chromosomes)
      (List.zipWith (fun candidate execution => ⟨candidate.2, candidate.1, goal, execution⟩)
        (named chromosomes) row) :=
    related_zipWith hRow fun candidate execution hFound =>
      ⟨rfl, rfl, fun hName => ⟨hName, hFound⟩⟩
  exact (List.forall₂_map_left_iff.mp hNamed).imp fun _ _ h => ⟨h.1, h.2.1, h.2.2 rfl⟩

end Batch

end Evaluator

end WitnessSearch
