import WitnessSearch.Proofs.Evaluation.Rounds

/-! The books an evaluator keeps. What was looked up in vain was handed to the executor, and what
was handed over is stored. A batch looks all its pairs up before it runs the first of them. -/

namespace WitnessSearch

variable {τ : Type} [HasCode τ]

namespace Memo

/-- The pairs of a batch that nothing is stored for, goal by goal. Candidates that share their
fingerprint count once, but a goal counts as often as it is named. -/
def missing (memo : Memo) (chromosomes : List (Chromosome τ)) (goals : List Goal) :
    List Evaluator.Pair :=
  memo.unknown (goals.flatMap fun goal =>
    (Evaluator.firsts [] (Evaluator.named chromosomes)).map fun candidate => (candidate.1, goal))

/-- A lookup counts as missed exactly if the pair was unknown. -/
theorem misses_lookup (memo : Memo) (p : Evaluator.Pair) :
    (memo.serve (.lookup p)).misses = memo.misses + (memo.unknown [p]).length := by
  unfold serve lookup unknown
  cases hFound : memo.peek? p.1 p.2 <;> simp [hFound]

/-- A lookup is counted as a miss if nothing is stored, and the lookups do not change that. -/
theorem misses_lookups (memo : Memo) (pairs : List Evaluator.Pair) :
    (memo.serveAll (pairs.map .lookup)).misses = memo.misses + (memo.unknown pairs).length := by
  induction pairs generalizing memo with
  | nil => rfl
  | cons p rest ih =>
      have hLater : (memo.serve (.lookup p)).unknown rest = memo.unknown rest :=
        List.filter_congr fun q _ => by rw [serve, peek?_lookup]
      have hSplit : memo.unknown (p :: rest) = memo.unknown [p] ++ memo.unknown rest :=
        List.filter_append [p] rest
      rw [hSplit, List.length_append, ← Nat.add_assoc, ← misses_lookup, ← hLater]
      exact ih (memo.serve (.lookup p))

theorem misses_insertions (memo : Memo) (entries : List (Evaluator.Pair × Execution)) :
    (memo.serveAll (entries.map Evaluator.insertion)).misses = memo.misses := by
  induction entries generalizing memo with
  | nil => rfl
  | cons entry rest ih => exact ih (memo.serve (Evaluator.insertion entry))

end Memo

namespace Evaluator

/-- The books of an evaluator since some moment: the given pairs were looked up in vain, handed to
the executor and stored. -/
structure Served (before : Evaluator) (pairs : List Pair) (after : Evaluator) : Prop where
  misses : after.memo.misses = before.memo.misses + pairs.length
  executions : after.executions = before.executions + pairs.length
  calls : after.calls = pairs.reverse ++ before.calls
  isSome : ∀ p : Pair, (after.memo.peek? p.1 p.2).isSome ↔
    (before.memo.peek? p.1 p.2).isSome ∨ p ∈ pairs

theorem Served.refl (evaluator : Evaluator) : Served evaluator [] evaluator := by
  constructor <;> simp

/-- What was served one after the other is served in one. -/
theorem Served.trans {a b c : Evaluator} {first later : List Pair} (h : Served a first b)
    (hNext : Served b later c) : Served a (first ++ later) c where
  misses := by rw [hNext.misses, h.misses, List.length_append]; omega
  executions := by rw [hNext.executions, h.executions, List.length_append]; omega
  calls := by rw [hNext.calls, h.calls, List.reverse_append, List.append_assoc]
  isSome p := by rw [hNext.isSome, h.isSome, List.mem_append, or_assoc]

/-- An evaluator that began with nothing stores each of the pairs it was served once. -/
theorem Served.size_of_empty {pairs : List Pair} {evaluator : Evaluator}
    (h : Served .empty pairs evaluator) : evaluator.memo.size = pairs.dedup.length :=
  Memo.size_eq_length_dedup fun p => by simp [h.isSome p, empty]

variable {before : Evaluator}

/-- The books are kept if the pairs that were handed over are those that the lookups missed, and
the same were stored. -/
theorem served_worked {asked : List Pair} (entries : List (Pair × Execution))
    (hKeys : entries.map (·.1) = before.memo.unknown asked) :
    Served before (before.memo.unknown asked)
      (before.worked (asked.map .lookup ++ entries.map insertion) (before.memo.unknown asked)) where
  misses := by
    rw [worked, Memo.serveAll, List.foldl_append]
    exact (Memo.misses_insertions _ entries).trans (before.memo.misses_lookups asked)
  executions := rfl
  calls := rfl
  isSome p := by
    rw [worked, Memo.peek?_serveAll, Memo.earliest, insertions_batch, Option.isSome_or,
      Bool.or_eq_true, List.lookup_isSome_iff, ← hKeys, List.mem_map]
    exact or_congr_right (exists_congr fun _ => and_congr_right fun _ => beq_iff_eq.trans eq_comm)

/-- Evaluating a pair serves it if it is unknown, and nothing else. -/
theorem ensures_evaluate (executor : Executor τ) (chromosome : Chromosome τ) (goal : Goal) :
    Ensures (· = before) (evaluate executor chromosome goal) fun _ =>
      Served before (before.memo.unknown [(chromosome.fingerprint, goal)]) := by
  rintro evaluator candidate after rfl hRun
  rw [evaluate_eq] at hRun
  have hBooks := @served_worked evaluator [(chromosome.fingerprint, goal)]
  split at hRun
  · rename_i hFound
    cases hRun
    have hKnown : evaluator.memo.unknown [(chromosome.fingerprint, goal)] = [] := by
      simp [Memo.unknown, hFound]
    have hServed := hBooks [] hKnown.symm
    rw [hKnown] at hServed ⊢
    exact hServed
  · rename_i execution hNone _
    cases hRun
    have hUnknown : evaluator.memo.unknown [(chromosome.fingerprint, goal)] =
        [(chromosome.fingerprint, goal)] := by
      simp [Memo.unknown, hNone]
    have hServed := hBooks [((chromosome.fingerprint, goal), execution)] hUnknown.symm
    rw [hUnknown] at hServed ⊢
    exact hServed
  · cases hRun

/-- A batch runs what is missing of each goal's pairs, a pair for every time that its goal is
named. -/
theorem ensures_resolve (executor : Executor τ) {candidates : List (Named τ)}
    (hProper : ∀ candidate ∈ candidates, candidate.Proper) (goals : List Goal) :
    Ensures (· = before) (resolve executor candidates goals) fun _ =>
      Served before (before.memo.unknown (pairsOf (firsts [] candidates) goals)) := by
  rintro before rows after rfl hRun
  obtain ⟨settled, hResolves⟩ := exists_resolves hRun
  rw [hResolves.after_eq, handedFor_eq _ hProper]
  exact served_worked _ hResolves.keys_additions

/-- Evaluating a batch serves the pairs that are missing, goal by goal. -/
theorem ensures_evaluateBatch (executor : Executor τ) (chromosomes : List (Chromosome τ))
    (goals : List Goal) :
    Ensures (· = before) (evaluateBatch executor chromosomes goals) fun _ =>
      Served before (before.memo.missing chromosomes goals) :=
  Ensures.bind (ensures_resolve executor (fun _ => proper_of_mem_named) goals) fun _ =>
    Ensures.pure fun _ h => h

/-- A matrix serves the same pairs as the batch that it is made of. -/
theorem ensures_fitnessMatrix (executor : Executor τ) (chromosomes : List (Chromosome τ))
    (goals : List Goal) :
    Ensures (· = before) (fitnessMatrix executor chromosomes goals) fun _ =>
      Served before (before.memo.missing chromosomes goals) :=
  Ensures.bind (ensures_resolve executor (fun _ => proper_of_mem_named) goals) fun _ =>
    Ensures.pure fun _ h => h

end Evaluator

end WitnessSearch
