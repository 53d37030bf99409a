import WitnessSearch.Proofs.Evaluation.Records

/-! Judges and trials. A judge says what comes of every candidate and goal, and an executor may go
by it. Of candidates with one fingerprint only the first is ever run, so what an evaluator comes to
have in its memo is what it had, and else what the judge says of the first candidate with the
fingerprint. -/

namespace WitnessSearch.Evaluator

variable {τ : Type}

/-- What an executor says of every candidate and goal. It may tell candidates with one fingerprint
apart. -/
abbrev Judge (τ : Type) := Chromosome τ → Goal → Except ExecutionFailure Execution

def Judge.executor (judge : Judge τ) : Executor τ :=
  ⟨fun chromosome goal => .ok (judge chromosome goal)⟩

/-- The execution of a candidate. One that cannot be run has the worst fitness. -/
def Judge.execution (judge : Judge τ) (chromosome : Chromosome τ) (goal : Goal) : Execution :=
  match judge chromosome goal with
  | .ok execution => execution
  | .error _ => .failed

theorem Judge.verdict_executor (judge : Judge τ) (chromosome : Chromosome τ) (goal : Goal) :
    judge.executor.verdict chromosome goal = .ok (judge.execution chromosome goal) := by
  cases hJudged : judge chromosome goal <;>
    simp [Executor.verdict, Judge.execution, Judge.executor, hJudged]

section Trials

/-- The first of the candidates with the fingerprint of the given one. -/
def leader (candidates : List (Named τ)) (candidate : Named τ) : Named τ :=
  (candidates.find? (·.1 = candidate.1)).getD candidate

/-- The execution that a candidate is given among others: the one in the memo, or else that of the
first with its fingerprint. -/
def Judge.answer (judge : Judge τ) (memo : Memo) (candidates : List (Named τ)) (goal : Goal)
    (candidate : Named τ) : Execution :=
  (memo.peek? candidate.1 goal).getD (judge.execution (leader candidates candidate).2 goal)

/-- What the judge says of all pairs of candidates and goals, one by one. -/
def Judge.trials (judge : Judge τ) (candidates : List (Named τ)) (goals : List Goal) :
    List (Pair × Execution) :=
  goals.flatMap fun goal =>
    candidates.map fun candidate => ((candidate.1, goal), judge.execution candidate.2 goal)

variable {judge : Judge τ} {memo : Memo} {candidates : List (Named τ)} {goals : List Goal}

/-- Of several candidates with one fingerprint the first is decisive. -/
theorem lookup_trials (fingerprint : Fingerprint) (goal : Goal) :
    (judge.trials candidates goals).lookup (fingerprint, goal) =
      if goal ∈ goals then
        (candidates.find? (·.1 = fingerprint)).map (judge.execution ·.2 goal)
      else none := by
  induction goals with
  | nil => rfl
  | cons first rest ih =>
      have hKey : ∀ candidate : Named τ, ((candidate.1, first) == (fingerprint, goal)) =
          (decide (candidate.1 = fingerprint) && decide (first = goal)) := fun _ => rfl
      rw [Judge.trials, List.flatMap_cons, List.lookup_append, ← Judge.trials, ih,
        lookup_map (fun candidate : Named τ => (candidate.1, first))]
      simp only [hKey]
      by_cases hFirst : first = goal
      · subst hFirst
        cases hFound : candidates.find? (·.1 = fingerprint) <;> simp [hFound]
      · have hOther : candidates.find? (fun candidate =>
            decide (candidate.1 = fingerprint) && decide (first = goal)) = none := by
          simp [hFirst]
        simp [hOther, Ne.symm hFirst]

/-- There is a first among the candidates with a fingerprint. -/
theorem exists_leader {candidate : Named τ} (hMem : candidate ∈ candidates) :
    ∃ first, candidates.find? (·.1 = candidate.1) = some first ∧ first.1 = candidate.1 := by
  obtain ⟨first, hFirst⟩ : ∃ first, candidates.find? (·.1 = candidate.1) = some first :=
    Option.isSome_iff_exists.mp (List.find?_isSome.mpr ⟨candidate, hMem, by simp⟩)
  exact ⟨first, hFirst, by simpa using List.find?_some hFirst⟩

/-- A candidate that was tried before is given what was found then. -/
theorem answer_of_extended {evaluator : Evaluator} {earlier : List Goal}
    (h : Extended memo (judge.trials candidates earlier) evaluator) {candidate : Named τ}
    (hMem : candidate ∈ candidates) (goal : Goal) :
    judge.answer evaluator.memo candidates goal candidate =
      judge.answer memo candidates goal candidate := by
  obtain ⟨first, hFirst, -⟩ := exists_leader hMem
  rw [Judge.answer, Judge.answer, leader, hFirst, h (candidate.1, goal), lookup_trials, hFirst]
  cases memo.peek? candidate.1 goal with
  | some execution => rfl
  | none => by_cases hGoal : goal ∈ earlier <;> simp [hGoal]

/-- Candidates that come later do not change which one was the first. -/
theorem leader_append (before rest : List (Named τ)) (candidate : Named τ) :
    leader (before ++ candidate :: rest) candidate =
      (before.find? (·.1 = candidate.1)).getD candidate := by
  rw [leader, List.find?_append, List.find?_cons_of_pos (by simp)]
  cases before.find? (·.1 = candidate.1) <;> rfl

/-- A memo may be extended in two parts. Of two executions for one pair the earlier stays. -/
theorem Extended.trans {first later : List (Pair × Execution)} {middle final : Evaluator}
    (h : Extended memo first middle) (hNext : Extended middle.memo later final) :
    Extended memo (first ++ later) final := by
  intro p
  rw [hNext p, h p, List.lookup_append, Option.or_assoc]

end Trials

section OneByOne

variable [HasCode τ] {judge : Judge τ} {memo : Memo}

/-- Evaluates every candidate against every goal, one pair after the other, goal by goal. -/
def evaluateEach (executor : Executor τ) (chromosomes : List (Chromosome τ))
    (goals : List Goal) : Evaluation (List (List (Evaluated τ))) :=
  goals.mapM fun goal => chromosomes.mapM fun chromosome => evaluate executor chromosome goal

/-- The candidate bound to the goal with the execution it is given among others. -/
def Judge.bound (judge : Judge τ) (memo : Memo) (chromosomes : List (Chromosome τ)) (goal : Goal)
    (chromosome : Chromosome τ) : Evaluated τ :=
  ⟨chromosome, chromosome.fingerprint, goal,
    judge.answer memo (named chromosomes) goal (chromosome.fingerprint, chromosome)⟩

/-- By a judge, a pair is evaluated to what is in the memo for it, or else to what the judge says.
-/
theorem exists_evaluate (judge : Judge τ) (chromosome : Chromosome τ) (goal : Goal)
    (evaluator : Evaluator) :
    ∃ final, evaluate judge.executor chromosome goal evaluator =
        .ok ⟨chromosome, chromosome.fingerprint, goal,
          (evaluator.memo.peek? chromosome.fingerprint goal).getD
            (judge.execution chromosome goal)⟩ final ∧
      Extended evaluator.memo
        [((chromosome.fingerprint, goal), judge.execution chromosome goal)] final := by
  let pair : Pair := (chromosome.fingerprint, goal)
  rw [evaluate_eq, judge.verdict_executor]
  cases hFound : evaluator.memo.peek? chromosome.fingerprint goal with
  | none =>
      exact ⟨_, rfl, extended_worked evaluator [pair] [(pair, judge.execution chromosome goal)] _⟩
  | some execution =>
      refine ⟨_, rfl, fun p => (extended_worked evaluator [pair] [] [] p).trans ?_⟩
      rw [List.lookup_nil, Option.or_none, List.lookup_cons]
      by_cases hPair : p = pair
      · subst hPair
        simp [pair, hFound]
      · simp [pair, beq_eq_false_iff_ne.mpr hPair]

/-- A row that is begun after some candidates were evaluated for the goal. -/
theorem exists_evaluateRow (goal : Goal) (before rest : List (Chromosome τ))
    {evaluator : Evaluator} (h : Extended memo (judge.trials (named before) [goal]) evaluator) :
    ∃ final, rest.mapM (fun chromosome => evaluate judge.executor chromosome goal) evaluator =
        .ok (rest.map (judge.bound memo (before ++ rest) goal)) final ∧
      Extended memo (judge.trials (named (before ++ rest)) [goal]) final := by
  induction rest generalizing before evaluator with
  | nil => exact ⟨evaluator, rfl, by rwa [List.append_nil]⟩
  | cons first rest ih =>
      obtain ⟨middle, hFirst, hMiddle⟩ := exists_evaluate judge first goal evaluator
      have hTried : Extended memo (judge.trials (named (before ++ [first])) [goal]) middle := by
        have hBoth := h.trans hMiddle
        simpa [Judge.trials, named] using hBoth
      obtain ⟨final, hRest, hFinal⟩ := ih (before ++ [first]) hTried
      have hBound : Evaluated.mk first first.fingerprint goal
          ((evaluator.memo.peek? first.fingerprint goal).getD (judge.execution first goal)) =
          judge.bound memo (before ++ first :: rest) goal first := by
        have hNamed : named (before ++ first :: rest) =
            named before ++ (first.fingerprint, first) :: named rest := by simp [named]
        rw [Judge.bound, Judge.answer, hNamed, leader_append, h (first.fingerprint, goal),
          lookup_trials]
        cases memo.peek? first.fingerprint goal <;>
          cases (named before).find? (·.1 = first.fingerprint) <;> simp
      rw [List.append_assoc] at hRest hFinal
      refine ⟨final, ?_, hFinal⟩
      rw [List.mapM_cons, List.map_cons, ← hBound]
      exact (bind_of_ok hFirst).trans ((bind_of_ok hRest).trans rfl)

/-- One by one, every candidate gets the execution that is in the memo for its fingerprint, or else
that of the first candidate with its fingerprint. -/
theorem exists_evaluateEach (chromosomes : List (Chromosome τ)) (before goals : List Goal)
    {evaluator : Evaluator}
    (h : Extended memo (judge.trials (named chromosomes) before) evaluator) :
    ∃ final, evaluateEach judge.executor chromosomes goals evaluator =
        .ok (goals.map fun goal => chromosomes.map (judge.bound memo chromosomes goal)) final ∧
      Extended memo (judge.trials (named chromosomes) (before ++ goals)) final := by
  induction goals generalizing before evaluator with
  | nil => exact ⟨evaluator, rfl, by rwa [List.append_nil]⟩
  | cons goal goals ih =>
      have hBegun : Extended evaluator.memo (judge.trials (named []) [goal]) evaluator :=
        extended_refl evaluator
      obtain ⟨middle, hRow, hMiddle⟩ := exists_evaluateRow goal [] chromosomes hBegun
      have hTried : Extended memo (judge.trials (named chromosomes) (before ++ [goal])) middle := by
        have hBoth := h.trans hMiddle
        simpa [Judge.trials] using hBoth
      obtain ⟨final, hRest, hFinal⟩ := ih (before ++ [goal]) hTried
      have hBound : chromosomes.map (judge.bound evaluator.memo chromosomes goal) =
          chromosomes.map (judge.bound memo chromosomes goal) := by
        refine List.map_congr_left fun chromosome hMem => ?_
        rw [Judge.bound, answer_of_extended h (List.mem_map_of_mem hMem), ← Judge.bound]
      rw [List.append_assoc] at hFinal
      refine ⟨final, ?_, hFinal⟩
      rw [evaluateEach, List.mapM_cons, List.map_cons, ← hBound]
      exact (bind_of_ok hRow).trans ((bind_of_ok hRest).trans rfl)

end OneByOne

end WitnessSearch.Evaluator
