import WitnessSearch.Evaluator
import WitnessSearch.Proofs.Effects
import WitnessSearch.Proofs.Memo

/-! What an evaluator does to itself: it makes requests to its memo and hands pairs to the executor.
A batch does so in three rounds, of which only the second can be stopped by a fault. -/

namespace WitnessSearch

variable {τ : Type}

/-- The execution that stands for what the executor says of a candidate. -/
def Executor.verdict (executor : Executor τ) (chromosome : Chromosome τ) (goal : Goal) :
    Except Fault Execution :=
  match executor.execute chromosome goal with
  | .ok (.ok execution) => .ok execution
  | .ok (.error _) => .ok .failed
  | .error fault => .error fault

/-- A verdict fails only if the executor itself does, and with the fault of the executor. -/
theorem Executor.verdict_eq_error {executor : Executor τ} {chromosome : Chromosome τ} {goal : Goal}
    {fault : Fault} (h : executor.verdict chromosome goal = .error fault) :
    executor.execute chromosome goal = .error fault := by
  unfold verdict at h
  split at h
  · cases h
  · cases h
  · rename_i hFault
    cases h
    exact hFault

namespace Evaluator

/-- The evaluator after some requests to its memo, with some pairs handed to the executor. -/
def worked (evaluator : Evaluator) (requests : List Memo.Request) (handed : List Pair) :
    Evaluator where
  memo := evaluator.memo.serveAll requests
  executions := evaluator.executions + handed.length
  calls := handed.reverse ++ evaluator.calls

section Work

variable (evaluator : Evaluator)

@[simp] theorem worked_nil : evaluator.worked [] [] = evaluator := rfl

/-- Two rounds of work are one round with the requests and the handed out pairs of both, in their
order. -/
@[simp] theorem worked_worked (first later : List Memo.Request) (handed more : List Pair) :
    (evaluator.worked first handed).worked later more =
      evaluator.worked (first ++ later) (handed ++ more) := by
  simp [worked, Memo.serveAll, Nat.add_assoc]

/-- Working through a list is one round of work with all that its members ask for. -/
theorem foldl_worked {α : Type} (requests : α → List Memo.Request) (handed : α → List Pair)
    (xs : List α) :
    xs.foldl (fun evaluator x => evaluator.worked (requests x) (handed x)) evaluator =
      evaluator.worked (xs.flatMap requests) (xs.flatMap handed) := by
  induction xs generalizing evaluator with
  | nil => rfl
  | cons x xs ih =>
      rw [List.foldl_cons, ih, worked_worked, List.flatMap_cons, List.flatMap_cons]

/-- Consulting the memo is one lookup and hands nothing out. -/
theorem consult_eq (fingerprint : Fingerprint) (goal : Goal) :
    consult fingerprint goal evaluator =
      .ok (evaluator.memo.peek? fingerprint goal)
        (evaluator.worked [.lookup (fingerprint, goal)] []) := by
  rw [← Memo.lookup_fst]
  rfl

/-- Remembering an execution is one insertion and hands nothing out. -/
theorem remember_eq (fingerprint : Fingerprint) (goal : Goal) (execution : Execution) :
    remember fingerprint goal execution evaluator =
      .ok () (evaluator.worked [.insert (fingerprint, goal) execution] []) :=
  rfl

end Work

/-- Where the execution of a candidate comes from when the memo is looked up. -/
def originOf (memo : Memo) (goal : Goal) (candidate : Named τ) : Origin :=
  match memo.peek? candidate.1 goal with
  | some execution => .recalled execution
  | none => .pending

/-- The plan of a batch: for each goal where the executions of its distinct candidates come from. -/
abbrev Plan (τ : Type) := List (Goal × List (Named τ × Origin))

def planOf (memo : Memo) (distinct : List (Named τ)) (goals : List Goal) : Plan τ :=
  goals.map fun goal =>
    (goal, distinct.map fun candidate => (candidate, originOf memo goal candidate))

def Named.Proper [HasCode τ] (candidate : Named τ) : Prop :=
  candidate.1 = candidate.2.fingerprint

section Firsts

theorem proper_of_mem_named [HasCode τ] {chromosomes : List (Chromosome τ)} {candidate : Named τ}
    (h : candidate ∈ named chromosomes) : candidate.Proper := by
  obtain ⟨chromosome, -, rfl⟩ := List.mem_map.mp h
  rfl

theorem mem_firsts_of_mem {seen : List Fingerprint} {candidates : List (Named τ)}
    {candidate : Named τ} (h : candidate ∈ firsts seen candidates) : candidate ∈ candidates := by
  induction candidates generalizing seen with
  | nil => exact h
  | cons first rest ih =>
      rw [firsts] at h
      split at h
      · exact List.mem_cons_of_mem _ (ih h)
      · rcases List.mem_cons.mp h with rfl | hLater
        · exact List.mem_cons_self
        · exact List.mem_cons_of_mem _ (ih hLater)

/-- Every fingerprint of a batch that was not seen before has a first. -/
theorem exists_mem_firsts {seen : List Fingerprint} {candidates : List (Named τ)}
    {candidate : Named τ} (h : candidate ∈ candidates) (hSeen : candidate.1 ∉ seen) :
    ∃ first ∈ firsts seen candidates, first.1 = candidate.1 := by
  induction candidates generalizing seen with
  | nil => cases h
  | cons first rest ih =>
      rw [firsts]
      split
      · rename_i hFirst
        rcases List.mem_cons.mp h with rfl | hLater
        · exact absurd hFirst hSeen
        · exact ih hLater hSeen
      · by_cases hSame : first.1 = candidate.1
        · exact ⟨first, List.mem_cons_self, hSame⟩
        · have hLater : candidate ∈ rest := by
            rcases List.mem_cons.mp h with rfl | hLater
            · exact absurd rfl hSame
            · exact hLater
          have hUnseen : candidate.1 ∉ first.1 :: seen := by
            simp [hSeen, Ne.symm hSame]
          obtain ⟨other, hOther, hName⟩ := ih hLater hUnseen
          exact ⟨other, List.mem_cons_of_mem _ hOther, hName⟩

/-- Every fingerprint is kept once, and none of those seen before is. -/
theorem nodup_firsts (seen : List Fingerprint) (candidates : List (Named τ)) :
    ((firsts seen candidates).map (·.1)).Nodup ∧
      ∀ candidate ∈ firsts seen candidates, candidate.1 ∉ seen := by
  induction candidates generalizing seen with
  | nil => exact ⟨.nil, nofun⟩
  | cons first rest ih =>
      rw [firsts]
      split
      · exact ih seen
      · rename_i hFirst
        obtain ⟨hNodup, hUnseen⟩ := ih (first.1 :: seen)
        refine ⟨List.nodup_cons.mpr ⟨?_, hNodup⟩, ?_⟩
        · rintro hMem
          obtain ⟨candidate, hCandidate, hSame⟩ := List.mem_map.mp hMem
          exact hUnseen candidate hCandidate (hSame ▸ List.mem_cons_self)
        · rintro candidate hMem
          rcases List.mem_cons.mp hMem with rfl | hLater
          · exact hFirst
          · exact fun h => hUnseen candidate hLater (List.mem_cons_of_mem _ h)

end Firsts

section Planning

/-- Looking pairs up leaves the executions as they are. -/
theorem peek?_lookups (memo : Memo) (pairs : List Pair) (fingerprint : Fingerprint) (goal : Goal) :
    (memo.serveAll (pairs.map .lookup)).peek? fingerprint goal = memo.peek? fingerprint goal := by
  have hNone : Memo.insertions (pairs.map .lookup) = [] := by
    rw [Memo.insertions, List.filterMap_map]
    exact List.filterMap_eq_nil_iff.mpr fun _ _ => rfl
  have hStored := Memo.peek?_serveAll memo (pairs.map .lookup) (fingerprint, goal)
  rwa [Memo.earliest, hNone, List.lookup_nil, Option.or_none] at hStored

/-- Where an entry comes from is not changed by looking entries up. -/
theorem originOf_lookups (memo : Memo) (pairs : List Pair) :
    (originOf (memo.serveAll (pairs.map .lookup)) : Goal → Named τ → Origin) = originOf memo := by
  funext goal candidate
  rw [originOf, originOf, peek?_lookups]

/-- A planned row tells for each candidate what the memo has. -/
theorem plan_eq (distinct : List (Named τ)) (goal : Goal) (evaluator : Evaluator) :
    plan distinct goal evaluator =
      .ok (distinct.map fun candidate => (candidate, originOf evaluator.memo goal candidate))
        (evaluator.worked ((distinct.map fun candidate => (candidate.1, goal)).map .lookup) []) := by
  induction distinct generalizing evaluator with
  | nil => rfl
  | cons candidate rest ih =>
      let consulted := evaluator.worked ([(candidate.1, goal)].map .lookup) []
      have hFirst : (do
          match ← consult candidate.1 goal with
          | some execution => return (candidate, .recalled execution)
          | none => return (candidate, .pending) : Evaluation (Named τ × Origin)) evaluator =
          .ok (candidate, originOf evaluator.memo goal candidate) consulted := by
        refine (bind_of_ok (consult_eq evaluator candidate.1 goal)).trans ?_
        unfold originOf
        cases evaluator.memo.peek? candidate.1 goal <;> rfl
      have hRest := ih consulted
      rw [worked_worked] at hRest
      simp only [consulted, worked, originOf_lookups] at hRest
      unfold plan
      rw [List.mapM_cons]
      exact (bind_of_ok hFirst).trans ((bind_of_ok hRest).trans rfl)

def pairsOf (distinct : List (Named τ)) (goals : List Goal) : List Pair :=
  goals.flatMap fun goal => distinct.map fun candidate => (candidate.1, goal)

/-- The first round of a batch looks all its pairs up. -/
theorem planAll_eq (distinct : List (Named τ)) (goals : List Goal) (evaluator : Evaluator) :
    (goals.mapM fun goal => do return (goal, ← plan distinct goal) : Evaluation _) evaluator =
      .ok (planOf evaluator.memo distinct goals)
        (evaluator.worked ((pairsOf distinct goals).map .lookup) []) := by
  induction goals generalizing evaluator with
  | nil => rfl
  | cons goal goals ih =>
      have hFirst : (do return (goal, ← plan distinct goal) : Evaluation _) evaluator =
          .ok (goal, distinct.map fun candidate =>
              (candidate, originOf evaluator.memo goal candidate))
            (evaluator.worked ((distinct.map fun candidate => (candidate.1, goal)).map .lookup)
              []) :=
        (bind_of_ok (plan_eq distinct goal evaluator)).trans rfl
      have hRest := ih
        (evaluator.worked ((distinct.map fun candidate => (candidate.1, goal)).map .lookup) [])
      rw [worked_worked, ← List.map_append] at hRest
      simp only [planOf, worked, originOf_lookups] at hRest
      rw [List.mapM_cons]
      exact (bind_of_ok hFirst).trans ((bind_of_ok hRest).trans rfl)

end Planning

section Settling

variable [HasCode τ] {executor : Executor τ}

/-- A run counts itself and answers with the verdict of the executor. -/
theorem run_eq (executor : Executor τ) (chromosome : Chromosome τ) (goal : Goal)
    (evaluator : Evaluator) :
    run executor chromosome goal evaluator =
      match executor.verdict chromosome goal with
      | .ok execution =>
        .ok execution (evaluator.worked [] [(chromosome.fingerprint, goal)])
      | .error fault => .error fault (evaluator.worked [] [(chromosome.fingerprint, goal)]) := by
  refine (bind_of_ok rfl).trans ?_
  unfold Executor.verdict
  cases executor.execute chromosome goal with
  | error fault => rfl
  | ok answer => cases answer <;> rfl

/-- A pair that is in the memo is looked up and nothing else happens; another one is run, and stored
if the executor has a verdict on it. -/
theorem evaluate_eq (executor : Executor τ) (chromosome : Chromosome τ) (goal : Goal)
    (evaluator : Evaluator) :
    evaluate executor chromosome goal evaluator =
      match evaluator.memo.peek? chromosome.fingerprint goal,
        executor.verdict chromosome goal with
      | some execution, _ =>
        .ok ⟨chromosome, chromosome.fingerprint, goal, execution⟩
          (evaluator.worked [.lookup (chromosome.fingerprint, goal)] [])
      | none, .ok execution =>
        .ok ⟨chromosome, chromosome.fingerprint, goal, execution⟩
          (evaluator.worked [.lookup (chromosome.fingerprint, goal),
            .insert (chromosome.fingerprint, goal) execution] [(chromosome.fingerprint, goal)])
      | none, .error fault =>
        .error fault (evaluator.worked [.lookup (chromosome.fingerprint, goal)]
          [(chromosome.fingerprint, goal)]) := by
  refine (bind_of_ok (consult_eq evaluator chromosome.fingerprint goal)).trans ?_
  cases evaluator.memo.peek? chromosome.fingerprint goal with
  | some execution => rfl
  | none =>
      have hRun := run_eq executor chromosome goal
        (evaluator.worked [.lookup (chromosome.fingerprint, goal)] [])
      cases hVerdict : executor.verdict chromosome goal with
      | error fault =>
          rw [hVerdict, worked_worked] at hRun
          exact bind_of_error hRun
      | ok execution =>
          rw [hVerdict, worked_worked] at hRun
          refine (bind_of_ok hRun).trans ((bind_of_ok (remember_eq _ _ goal execution)).trans ?_)
          rw [worked_worked]
          rfl

/-- What a planned pair comes to: what was recalled for it, or the verdict of the executor. -/
inductive SettlesAs (executor : Executor τ) (goal : Goal) : Named τ × Origin → Settled → Prop where
  | recalled (candidate : Named τ) (execution : Execution) :
      SettlesAs executor goal (candidate, .recalled execution) ⟨candidate.1, execution, false⟩
  | ran {candidate : Named τ} {execution : Execution}
      (verdict : executor.verdict candidate.2 goal = .ok execution) :
      SettlesAs executor goal (candidate, .pending) ⟨candidate.1, execution, true⟩

/-- The pair of a planned candidate that is handed to the executor, if it has to be run. -/
def awaited (goal : Goal) (planned : Named τ × Origin) : List Pair :=
  match planned.2 with
  | .recalled _ => []
  | .pending => [(planned.1.2.fingerprint, goal)]

/-- The executor raised the fault on a pending pair of the plan. -/
def Raised (executor : Executor τ) (plan : Plan τ) (fault : Fault) : Prop :=
  ∃ row ∈ plan, ∃ candidate : Named τ, (candidate, .pending) ∈ row.2 ∧
    executor.verdict candidate.2 row.1 = .error fault

/-- A computation hands the given pairs to the executor and does nothing else. If it is stopped by
a fault, some of the pairs were handed over. -/
def Hands {α : Type} (raised : Fault → Prop) (handed : List Pair) (run : Evaluation α)
    (property : α → Prop) : Prop :=
  ∀ evaluator, match run evaluator with
    | .ok answer final => property answer ∧ final = evaluator.worked [] handed
    | .error fault final => raised fault ∧ ∃ done ⊆ handed, final = evaluator.worked [] done

namespace Hands

variable {α β : Type} {raised : Fault → Prop} {handed later : List Pair} {property : α → Prop}

omit [HasCode τ] in
protected theorem pure {a : α} (h : property a) : Hands raised [] (pure a) property :=
  fun _ => ⟨h, rfl⟩

/-- What two runs hand out one after the other is what both hand out, in that order. -/
protected theorem bind {run : Evaluation α} {next : α → Evaluation β} {property' : β → Prop}
    (hRun : Hands raised handed run property)
    (hNext : ∀ a, property a → Hands raised later (next a) property') :
    Hands raised (handed ++ later) (run >>= next) property' := by
  intro evaluator
  have hFirst := hRun evaluator
  cases hOutcome : run evaluator with
  | error fault final =>
      rw [hOutcome] at hFirst
      obtain ⟨hRaised, done, hDone, hFinal⟩ := hFirst
      rw [bind_of_error hOutcome]
      exact ⟨hRaised, done, List.Subset.trans hDone (List.subset_append_left _ _), hFinal⟩
  | ok a middle =>
      rw [hOutcome] at hFirst
      obtain ⟨hAnswer, rfl⟩ := hFirst
      rw [bind_of_ok hOutcome]
      have hSecond := hNext a hAnswer (evaluator.worked [] handed)
      cases hRest : next a (evaluator.worked [] handed) with
      | ok b final =>
          rw [hRest, worked_worked] at hSecond
          exact hSecond
      | error fault final =>
          rw [hRest] at hSecond
          obtain ⟨hRaised, done, hDone, hFinal⟩ := hSecond
          rw [worked_worked] at hFinal
          refine ⟨hRaised, handed ++ done, ?_, hFinal⟩
          exact List.append_subset.mpr ⟨List.subset_append_left _ _,
            List.Subset.trans hDone (List.subset_append_right _ _)⟩

/-- A run over a list hands out what its members do, in the order of the list. -/
protected theorem mapM {next : α → Evaluation β} {related : α → β → Prop}
    {pairs : α → List Pair} {xs : List α}
    (h : ∀ x ∈ xs, Hands raised (pairs x) (next x) (related x)) :
    Hands raised (xs.flatMap pairs) (xs.mapM next) (List.Forall₂ related xs) := by
  induction xs with
  | nil => exact Hands.pure .nil
  | cons x xs ih =>
      rw [List.mapM_cons, List.flatMap_cons]
      refine Hands.bind (h x List.mem_cons_self) fun y hFirst => ?_
      rw [← List.append_nil (xs.flatMap pairs)]
      refine Hands.bind (ih fun z hz => h z (List.mem_cons_of_mem x hz)) fun ys hRest => ?_
      exact Hands.pure (.cons hFirst hRest)

end Hands

/-- A single execution hands out its own pair and answers with the verdict on it. -/
theorem hands_run {raised : Fault → Prop} {chromosome : Chromosome τ} {goal : Goal}
    (h : ∀ fault, executor.verdict chromosome goal = .error fault → raised fault) :
    Hands raised [(chromosome.fingerprint, goal)] (run executor chromosome goal) fun execution =>
      executor.verdict chromosome goal = .ok execution := by
  intro evaluator
  rw [run_eq]
  cases hVerdict : executor.verdict chromosome goal with
  | ok execution => exact ⟨rfl, rfl⟩
  | error fault => exact ⟨h fault hVerdict, _, List.Subset.refl _, rfl⟩

/-- A pending pair of a planned row is handed over, and it settles as the executor says. -/
theorem hands_settle {plan : Plan τ} {row : Goal × List (Named τ × Origin)} (hRow : row ∈ plan) :
    Hands (Raised executor plan) (row.2.flatMap (awaited row.1)) (settle executor row.1 row.2)
      (List.Forall₂ (SettlesAs executor row.1) row.2) := by
  apply Hands.mapM
  rintro ⟨candidate, origin⟩ hMem
  cases origin with
  | recalled execution => exact Hands.pure (.recalled candidate execution)
  | pending =>
      have hRun : Hands (Raised executor plan) _ (run executor candidate.2 row.1) _ :=
        hands_run fun _ hVerdict => ⟨row, hRow, candidate, hMem, hVerdict⟩
      exact hRun.bind fun _ hVerdict => Hands.pure (.ran hVerdict)

/-- The second round of a batch runs what is pending, in the order of the plan. -/
theorem hands_settleAll (plan : Plan τ) :
    Hands (Raised executor plan) (plan.flatMap fun row => row.2.flatMap (awaited row.1))
      (plan.mapM fun row => do return (row.1, ← settle executor row.1 row.2))
      (List.Forall₂ (fun row settled => settled.1 = row.1 ∧
        List.Forall₂ (SettlesAs executor row.1) row.2 settled.2) plan) := by
  refine Hands.mapM fun row hRow => ?_
  rw [← List.append_nil (row.2.flatMap (awaited row.1))]
  exact Hands.bind (hands_settle hRow) fun settled hSettled => Hands.pure ⟨rfl, hSettled⟩

end Settling

section Storing

/-- What is stored for a settled candidate: its execution, if it was run for the batch. -/
def Settled.addition (goal : Goal) (settled : Settled) : List (Pair × Execution) :=
  if settled.fresh then [((settled.fingerprint, goal), settled.execution)] else []

def additions (settled : List (Goal × List Settled)) : List (Pair × Execution) :=
  settled.flatMap fun row => row.2.flatMap (Settled.addition row.1)

def insertion (entry : Pair × Execution) : Memo.Request :=
  .insert entry.1 entry.2

theorem eq_of_mem_addition {goal : Goal} {settled : Settled} {entry : Pair × Execution}
    (h : entry ∈ settled.addition goal) :
    entry = ((settled.fingerprint, goal), settled.execution) := by
  unfold Settled.addition at h
  split at h
  · exact List.mem_singleton.mp h
  · cases h

theorem insertions_lookups (pairs : List Pair) :
    Memo.insertions (pairs.map .lookup) = [] := by
  rw [Memo.insertions, List.filterMap_map]
  exact List.filterMap_eq_nil_iff.mpr fun _ _ => rfl

/-- Of the requests of a batch those of the third round are the insertions. -/
theorem insertions_batch (pairs : List Pair) (entries : List (Pair × Execution)) :
    Memo.insertions (pairs.map .lookup ++ entries.map insertion) = entries := by
  rw [Memo.insertions, List.filterMap_append, ← Memo.insertions, insertions_lookups,
    List.nil_append, List.filterMap_map]
  exact List.filterMap_some

theorem forM_of_ok {ε σ α : Type} {next : α → EStateM ε σ PUnit} {step : σ → α → σ}
    (h : ∀ x state, next x state = .ok ⟨⟩ (step state x)) (xs : List α) (state : σ) :
    xs.forM next state = .ok ⟨⟩ (xs.foldl step state) := by
  induction xs generalizing state with
  | nil => rfl
  | cons x xs ih => exact (bind_of_ok (h x state)).trans (ih (step state x))

theorem rememberRow_eq (goal : Goal) (row : List Settled) (evaluator : Evaluator) :
    rememberRow goal row evaluator =
      .ok () (evaluator.worked ((row.flatMap (Settled.addition goal)).map insertion) []) := by
  have hOne : ∀ (settled : Settled) (state : Evaluator),
      (if settled.fresh then remember settled.fingerprint goal settled.execution else pure ()) state =
        .ok ⟨⟩ (state.worked ((settled.addition goal).map insertion) []) := by
    intro settled state
    unfold Settled.addition
    split <;> rfl
  refine (forM_of_ok hOne row evaluator).trans ?_
  rw [foldl_worked, List.map_flatMap, List.flatMap_eq_nil_iff.mpr fun _ _ => rfl]

/-- The third round of a batch stores what was run. -/
theorem rememberAll_eq (settled : List (Goal × List Settled)) (evaluator : Evaluator) :
    (settled.forM fun row => rememberRow row.1 row.2) evaluator =
      .ok () (evaluator.worked ((additions settled).map insertion) []) := by
  refine (forM_of_ok (fun row state => rememberRow_eq row.1 row.2 state) settled evaluator).trans ?_
  rw [foldl_worked, additions, List.map_flatMap, List.flatMap_eq_nil_iff.mpr fun _ _ => rfl]

end Storing

section Batch

variable [HasCode τ]

/-- The pairs of a batch that are handed to the executor. -/
def handedFor (memo : Memo) (candidates : List (Named τ)) (goals : List Goal) : List Pair :=
  (planOf memo (firsts [] candidates) goals).flatMap fun row => row.2.flatMap (awaited row.1)

/-- A batch comes to the given rows. Its distinct candidates settle as they were planned, the rows
are put together from that, and the evaluator has looked everything up, run what was pending and
stored what was run. -/
structure Resolves (executor : Executor τ) (candidates : List (Named τ)) (goals : List Goal)
    (before : Evaluator) (settled : List (Goal × List Settled)) (rows : List (List Execution))
    (after : Evaluator) : Prop where
  settles : List.Forall₂ (fun row settled => settled.1 = row.1 ∧
    List.Forall₂ (SettlesAs executor row.1) row.2 settled.2)
    (planOf before.memo (firsts [] candidates) goals) settled
  rows_eq : rows = settled.map fun row => candidates.map fun candidate => find row.2 candidate.1
  after_eq : after = before.worked
    ((pairsOf (firsts [] candidates) goals).map .lookup ++ (additions settled).map insertion)
    (handedFor before.memo candidates goals)

def Interrupted (executor : Executor τ) (candidates : List (Named τ)) (goals : List Goal)
    (before : Evaluator) (fault : Fault) (after : Evaluator) : Prop :=
  Raised executor (planOf before.memo (firsts [] candidates) goals) fault ∧
    ∃ done ⊆ handedFor before.memo candidates goals,
      after = before.worked ((pairsOf (firsts [] candidates) goals).map .lookup) done

/-- What a batch does, whatever comes of it. An answer is that of settled rows, which say what was
stored and handed out, and a fault is one that a pending pair was stopped by after some of the pairs
were handed out. -/
theorem confines_resolve (executor : Executor τ) (candidates : List (Named τ)) (goals : List Goal)
    (before : Evaluator) :
    Confines (Interrupted executor candidates goals before) (· = before)
      (resolve executor candidates goals) fun rows after =>
        ∃ settled, Resolves executor candidates goals before settled rows after := by
  rintro before rfl
  have hPlan := planAll_eq (firsts [] candidates) goals before
  let looked := before.worked ((pairsOf (firsts [] candidates) goals).map .lookup) []
  have hSecond := @hands_settleAll τ _ executor
    (planOf before.memo (firsts [] candidates) goals) looked
  unfold resolve
  simp only [bind_of_ok hPlan]
  cases hOutcome : ((planOf before.memo (firsts [] candidates) goals).mapM fun row => do
      return (row.1, ← settle executor row.1 row.2) : Evaluation _) looked with
  | error fault final =>
      rw [hOutcome] at hSecond
      rw [bind_of_error hOutcome]
      obtain ⟨hRaised, done, hDone, rfl⟩ := hSecond
      exact ⟨hRaised, done, hDone, by rw [worked_worked, List.append_nil, List.nil_append]⟩
  | ok settled ran =>
      rw [hOutcome] at hSecond
      obtain ⟨hSettled, rfl⟩ := hSecond
      rw [bind_of_ok hOutcome, bind_of_ok (rememberAll_eq settled _)]
      refine ⟨settled, hSettled, rfl, ?_⟩
      simp [looked, handedFor]

section Answers

variable {executor : Executor τ} {candidates : List (Named τ)} {goals : List Goal}
  {before after : Evaluator} {settled : List (Goal × List Settled)} {rows : List (List Execution)}

/-- Whenever a batch is resolved there are settled rows that say how it went. All that is known of a
batch is derived from them. -/
theorem exists_resolves (h : resolve executor candidates goals before = .ok rows after) :
    ∃ settled, Resolves executor candidates goals before settled rows after :=
  (confines_resolve executor candidates goals before).answer rfl h

/-- A settled entry has what was in the memo for its candidate, or what the executor said of it. -/
structure SettlesFrom (executor : Executor τ) (memo : Memo) (goal : Goal) (candidate : Named τ)
    (settled : Settled) : Prop where
  fingerprint : settled.fingerprint = candidate.1
  execution : memo.peek? candidate.1 goal = some settled.execution ∧ settled.fresh = false ∨
    memo.peek? candidate.1 goal = none ∧ settled.fresh = true ∧
      executor.verdict candidate.2 goal = .ok settled.execution

omit [HasCode τ] in
/-- An entry settled as its origin tells is settled from the memo of that origin. -/
theorem SettlesAs.from_memo {memo : Memo} {goal : Goal} {candidate : Named τ} {entry : Settled}
    (h : SettlesAs executor goal (candidate, originOf memo goal candidate) entry) :
    SettlesFrom executor memo goal candidate entry := by
  unfold originOf at h
  cases hFound : memo.peek? candidate.1 goal with
  | some execution =>
      rw [hFound] at h
      cases h
      exact ⟨rfl, .inl ⟨hFound, rfl⟩⟩
  | none =>
      rw [hFound] at h
      cases h with
      | ran hVerdict => exact ⟨rfl, .inr ⟨hFound, rfl, hVerdict⟩⟩

/-- Every entry of a batch is settled from the memo it was resolved with, row by row and in the
order of the goals. -/
theorem Resolves.settles_from (h : Resolves executor candidates goals before settled rows after) :
    List.Forall₂ (fun goal row => row.1 = goal ∧ List.Forall₂
      (SettlesFrom executor before.memo goal) (firsts [] candidates) row.2) goals settled := by
  refine (List.forall₂_map_left_iff.mp h.settles).imp ?_
  rintro goal row ⟨rfl, hRow⟩
  exact ⟨rfl, (List.forall₂_map_left_iff.mp hRow).imp fun _ _ hOne => hOne.from_memo⟩

/-- Every settled entry belongs to a candidate of the batch. -/
theorem Resolves.exists_candidate (h : Resolves executor candidates goals before settled rows after)
    {row : Goal × List Settled} (hRow : row ∈ settled) {entry : Settled} (hEntry : entry ∈ row.2) :
    ∃ candidate ∈ candidates, SettlesFrom executor before.memo row.1 candidate entry := by
  obtain ⟨goal, -, rfl, hSettled⟩ := exists_left_of_related h.settles_from hRow
  obtain ⟨candidate, hFirst, hSettles⟩ := exists_left_of_related hSettled hEntry
  exact ⟨candidate, mem_firsts_of_mem hFirst, hSettles⟩

omit [HasCode τ] in
/-- The execution of a candidate in a settled row is that of an entry with its fingerprint. -/
theorem exists_entry_of_mem {memo : Memo} {goal : Goal} {row : List Settled}
    (h : List.Forall₂ (SettlesFrom executor memo goal) (firsts [] candidates) row)
    {candidate : Named τ} (hMem : candidate ∈ candidates) :
    ∃ entry ∈ row, entry.fingerprint = candidate.1 ∧ find row candidate.1 = entry.execution := by
  obtain ⟨first, hFirst, hSame⟩ := exists_mem_firsts hMem List.not_mem_nil
  obtain ⟨entry, hEntry, hSettles⟩ := exists_right_of_related h hFirst
  unfold find
  split
  · rename_i found hFound
    exact ⟨found, List.mem_of_find?_eq_some hFound, by simpa using List.find?_some hFound, rfl⟩
  · rename_i hNone
    have hMissing := List.find?_eq_none.mp hNone entry hEntry
    simp [hSettles.fingerprint, hSame] at hMissing

/-- What holds of all settled entries holds of all executions in the rows. -/
theorem Resolves.forall_rows (h : Resolves executor candidates goals before settled rows after)
    (property : Fingerprint → Goal → Execution → Prop)
    (hEntries : ∀ row ∈ settled, ∀ entry ∈ row.2,
      property entry.fingerprint row.1 entry.execution) :
    List.Forall₂ (fun goal => List.Forall₂ (fun candidate execution =>
      property candidate.1 goal execution) candidates) goals rows := by
  rw [h.rows_eq]
  refine List.forall₂_map_right_iff.mpr ((related_with_mem h.settles_from).imp ?_)
  rintro goal row ⟨hMem, rfl, hRow⟩
  refine List.forall₂_map_right_iff.mpr (List.forall₂_same.mpr fun candidate hIn => ?_)
  obtain ⟨entry, hEntry, hName, hFound⟩ := exists_entry_of_mem hRow hIn
  rw [hFound, ← hName]
  exact hEntries row hMem entry hEntry

omit [HasCode τ] in
/-- What is unknown of a batch is found goal by goal and candidate by candidate. -/
theorem unknown_pairsOf (memo : Memo) (distinct : List (Named τ)) (goals : List Goal) :
    memo.unknown (pairsOf distinct goals) =
      goals.flatMap fun goal => distinct.flatMap fun candidate =>
        memo.unknown [(candidate.1, goal)] := by
  rw [pairsOf, Memo.unknown, List.filter_flatMap]
  exact List.flatMap_congr fun goal _ =>
    memo.unknown_map (fun candidate : Named τ => (candidate.1, goal)) distinct

/-- What is handed over for proper candidates is what the memo lacks. -/
theorem handedFor_eq (memo : Memo) (hProper : ∀ candidate ∈ candidates, candidate.Proper)
    (goals : List Goal) :
    handedFor memo candidates goals = memo.unknown (pairsOf (firsts [] candidates) goals) := by
  rw [handedFor, planOf, List.flatMap_map, unknown_pairsOf]
  refine List.flatMap_congr fun goal _ => ?_
  rw [List.flatMap_map]
  refine List.flatMap_congr fun candidate hMem => ?_
  have hName : candidate.1 = candidate.2.fingerprint := hProper _ (mem_firsts_of_mem hMem)
  unfold awaited originOf Memo.unknown
  cases hFound : memo.peek? candidate.1 goal <;> simp [hFound, ← hName]

/-- What is stored for a batch is what the memo lacked. -/
theorem Resolves.keys_additions (h : Resolves executor candidates goals before settled rows after) :
    (additions settled).map (·.1) = before.memo.unknown (pairsOf (firsts [] candidates) goals) := by
  rw [additions, List.map_flatMap, unknown_pairsOf]
  refine flatMap_eq_of_related (h.settles_from.imp ?_)
  rintro goal row ⟨rfl, hRow⟩
  rw [List.map_flatMap]
  refine flatMap_eq_of_related (hRow.imp fun candidate entry hEntry => ?_)
  rcases hEntry.execution with ⟨hFound, hOld⟩ | ⟨hNone, hNew, -⟩
  · simp [Settled.addition, Memo.unknown, hOld, hFound]
  · simp [Settled.addition, Memo.unknown, hNew, hNone, hEntry.fingerprint]

end Answers

end Batch

end Evaluator

end WitnessSearch
