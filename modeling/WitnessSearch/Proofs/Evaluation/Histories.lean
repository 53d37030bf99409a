import WitnessSearch.Proofs.Evaluation.Accounting

/-! The memo against its history. What a memo answers depends on the earlier insertions alone: the
earliest one for a pair is what is found for it ever after. An evaluator does nothing to its memo
but look up and insert, so its executions stay as well. -/

namespace WitnessSearch

namespace Evaluator

variable {τ : Type} [HasCode τ]

variable {executors : Executor τ → Prop} {exchanges : List (Exchange τ)} {evaluator : Evaluator}

/-- The memo of a session was reached from an empty one by lookups and insertions. -/
theorem Session.reached (h : Session executors exchanges evaluator) :
    Memo.empty.Reaches evaluator.memo := by
  induction h with
  | opened => exact Memo.Reaches.refl _
  | asked _ _ _ last ih => exact (Works.keeps_reached (fun _ => works_perform _ _) ih last).2

/-- What the memo had at some point of a session it has ever after. -/
theorem Session.within (h : Session executors exchanges evaluator) :
    ∀ exchange ∈ exchanges, exchange.memo.Within evaluator.memo := by
  induction h with
  | opened => exact nofun
  | asked _ _ _ last ih =>
      have hLast := (Works.keeps_within (fun _ => works_perform _ _) (Memo.Within.refl _) last).2
      rw [List.forall_mem_append]
      refine ⟨fun exchange hMem => (ih exchange hMem).trans hLast, ?_⟩
      rw [List.forall_mem_singleton]
      exact hLast

end Evaluator

namespace Memo

/-- What a memo answers is the execution of the earliest insertion for exactly the pair asked for.
Whether it has an entry agrees with that, and asking for it leaves no trace. Its entries are the
different pairs that were inserted, and its counters the lookups that found something and those that
did not. In a session with an evaluator, whatever it is asked for, the memo is one that such
requests lead to, every lookup that found nothing stands for one run, and no execution that is
stored at some point changes later, not even in a batch that has a pair run twice. -/
theorem first_insertion_stays {τ : Type} [HasCode τ] {executors : Executor τ → Prop}
    {exchanges : List (Evaluator.Exchange τ)} {evaluator : Evaluator}
    (hSession : Evaluator.Session executors exchanges evaluator) (requests : List Request) :
    ((∀ i, (empty.answers requests)[i]? =
        requests[i]?.map (Request.answerFrom (earliest (requests.take i)))) ∧
      (empty.serveAll requests).stats = {
        entries := ((insertions requests).map (·.1)).dedup.length
        hits := (empty.answers requests).countP Answer.isHit
        misses := (empty.answers requests).countP Answer.isMiss } ∧
      empty.serveAll (requests.filter fun request => !request.isContains) =
        empty.serveAll requests) ∧
    evaluator.executions = evaluator.memo.stats.misses ∧
    (∃ made, evaluator.memo = empty.serveAll made) ∧
    ∀ exchange ∈ exchanges, exchange.memo.Within evaluator.memo := by
  refine ⟨⟨fun i => ?_, ?_, serveAll_filter empty requests⟩, ?_, hSession.reached, hSession.within⟩
  · have hStored : (fun p : Evaluator.Pair => (empty.serveAll (requests.take i)).peek? p.1 p.2) =
        earliest (requests.take i) := by
      funext p
      rw [peek?_serveAll, peek?_empty, Option.none_or]
    rw [getElem?_answers, ← hStored]
    exact congrArg (requests[i]?.map ·) (funext (answer_eq _))
  · obtain ⟨hHits, hMisses⟩ := counters_serveAll empty requests
    rw [stats, size_serveAll, hHits, hMisses]
    exact congrArg₂ (MemoStats.mk _) (Nat.zero_add _) (Nat.zero_add _)
  · obtain ⟨pairs, hServed, -⟩ := hSession.served
    exact hServed.executions.trans hServed.misses.symm

section Sample

open Evaluator (sampleCall sampleGoal missAll missAll_answers works_perform)

def sampleRequests : List Request :=
  [.insert (⟨"a"⟩, sampleGoal 1) ⟨0.5, none⟩, .lookup (⟨"a"⟩, sampleGoal 2),
    .insert (⟨"a"⟩, sampleGoal 1) ⟨0.9, none⟩, .contains (⟨"a"⟩, sampleGoal 1),
    .lookup (⟨"a"⟩, sampleGoal 1)]

/-- The batch of the session names its goal twice, so it looks its pair up twice and has it run
twice. -/
theorem first_insertion_stays_twice :
    ∃ (exchange : Evaluator.Exchange InputVector) (evaluator : Evaluator),
      Evaluator.Session (fun _ => True) [exchange] evaluator ∧
      exchange.request = .batch [sampleCall] [sampleGoal 1, sampleGoal 1] ∧
      evaluator.executions = evaluator.memo.stats.misses ∧
      (empty.answers sampleRequests)[1]? = some (.found none) ∧
      (empty.answers sampleRequests)[3]? = some (.contained true) ∧
      (empty.answers sampleRequests)[4]? = some (.found (some ⟨0.5, none⟩)) ∧
      (empty.serveAll sampleRequests).stats.entries = 1 := by
  obtain ⟨answer, evaluator, hRun⟩ := (works_perform missAll
    (.batch [sampleCall] [sampleGoal 1, sampleGoal 1])).exists_answer missAll_answers
  have hSession : Evaluator.Session (fun _ => True) [⟨.empty, _, answer⟩] evaluator :=
    Evaluator.Session.opened.asked trivial (List.nil_subset _) hRun
  obtain ⟨⟨hAnswers, hStats, -⟩, hMisses, -⟩ := first_insertion_stays hSession sampleRequests
  refine ⟨_, evaluator, hSession, rfl, hMisses, (hAnswers 1).trans rfl, (hAnswers 3).trans rfl,
    (hAnswers 4).trans rfl, (congrArg MemoStats.entries hStats).trans ?_⟩
  decide

end Sample

end Memo

end WitnessSearch
