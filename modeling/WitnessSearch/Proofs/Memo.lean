import Mathlib.Data.List.Dedup
import Mathlib.Data.List.Perm.Subperm
import Std.Data.HashMap.Lemmas
import WitnessSearch.Memo

/-! The memo against its history: the earliest execution stored for a pair is what is found for it
ever after, and every lookup is counted once. -/

namespace WitnessSearch

/-- A pair of a candidate's fingerprint and a goal. -/
abbrev Evaluator.Pair := Fingerprint × Goal

namespace Memo

open Evaluator (Pair)

@[simp] theorem lookup_fst (memo : Memo) (fingerprint : Fingerprint) (goal : Goal) :
    (memo.lookup fingerprint goal).1 = memo.peek? fingerprint goal := by
  unfold lookup
  split <;> simp_all

/-- A lookup counts, but changes nothing that can be looked up later. -/
@[simp] theorem peek?_lookup (memo : Memo) (fingerprint other : Fingerprint) (goal goal' : Goal) :
    (memo.lookup fingerprint goal).2.peek? other goal' = memo.peek? other goal' := by
  unfold lookup
  split <;> rfl

/-- The first execution stored for a pair stays. -/
theorem peek?_insert (memo : Memo) (fingerprint other : Fingerprint) (goal goal' : Goal)
    (execution : Execution) :
    (memo.insert fingerprint goal execution).peek? other goal' =
      (memo.peek? other goal').or
        (if fingerprint = other ∧ goal = goal' then some execution else none) := by
  simp only [insert, peek?, Std.HashMap.getElem?_insertIfNew, Std.HashMap.mem_iff_isSome_getElem?]
  by_cases h : fingerprint = other ∧ goal = goal'
  · obtain ⟨rfl, rfl⟩ := h
    cases memo.entries[(fingerprint, goal)]? <;> simp
  · rw [if_neg (by simpa using fun h₁ h₂ => absurd ⟨h₁, h₂⟩ h), if_neg h, Option.or_none]

@[simp] theorem peek?_empty (fingerprint : Fingerprint) (goal : Goal) :
    empty.peek? fingerprint goal = none := by
  simp [empty, peek?]

def pairs (memo : Memo) : List Pair :=
  memo.entries.keys

/-- The pairs of a memo are those that can be looked up. -/
theorem mem_pairs {memo : Memo} {p : Pair} :
    p ∈ memo.pairs ↔ (memo.peek? p.1 p.2).isSome := by
  rw [pairs, peek?, Std.HashMap.mem_keys, Std.HashMap.mem_iff_isSome_getElem?]

theorem nodup_pairs (memo : Memo) : memo.pairs.Nodup :=
  Std.HashMap.nodup_keys

theorem length_pairs (memo : Memo) : memo.pairs.length = memo.size :=
  Std.HashMap.length_keys

/-- A memo that knows as many pairs is at least as large. -/
theorem size_le_size {before after : Memo}
    (h : ∀ p : Pair, (before.peek? p.1 p.2).isSome → (after.peek? p.1 p.2).isSome) :
    before.size ≤ after.size := by
  rw [← length_pairs, ← length_pairs]
  refine (List.subperm_of_subset before.nodup_pairs fun p hp => ?_).length_le
  exact mem_pairs.mpr (h p (mem_pairs.mp hp))

/-- The size of a memo is the number of different pairs that are stored. -/
theorem size_eq_length_dedup {memo : Memo} {stored : List Pair}
    (h : ∀ p : Pair, (memo.peek? p.1 p.2).isSome ↔ p ∈ stored) :
    memo.size = stored.dedup.length := by
  have hSame : memo.pairs ⊆ stored.dedup ∧ stored.dedup ⊆ memo.pairs := by
    constructor <;> intro p hp <;> simpa [mem_pairs, h] using hp
  rw [← length_pairs]
  exact Nat.le_antisymm (List.subperm_of_subset memo.nodup_pairs hSame.1).length_le
    (List.subperm_of_subset stored.nodup_dedup hSame.2).length_le

def unknown (memo : Memo) (asked : List Pair) : List Pair :=
  asked.filter fun p => (memo.peek? p.1 p.2).isNone

/-- A pair is unknown if it is asked for and cannot be looked up. -/
theorem mem_unknown {memo : Memo} {asked : List Pair} {p : Pair} :
    p ∈ memo.unknown asked ↔ p ∈ asked ∧ memo.peek? p.1 p.2 = none := by
  simp [unknown]

theorem unknown_map {α : Type} (memo : Memo) (pair : α → Pair) (xs : List α) :
    memo.unknown (xs.map pair) = xs.flatMap fun x => memo.unknown [pair x] := by
  rw [unknown, List.map_eq_flatMap, List.filter_flatMap]
  rfl

/-- What a memo can be asked for. -/
inductive Request where
  | lookup (pair : Pair)
  | insert (pair : Pair) (execution : Execution)
  | contains (pair : Pair)

inductive Answer where
  | found (execution : Option Execution)
  | inserted
  | contained (known : Bool)

def answer (memo : Memo) : Request → Answer
  | .lookup p => .found (memo.lookup p.1 p.2).1
  | .insert _ _ => .inserted
  | .contains p => .contained (memo.contains p.1 p.2)

def serve (memo : Memo) : Request → Memo
  | .lookup p => (memo.lookup p.1 p.2).2
  | .insert p execution => memo.insert p.1 p.2 execution
  | .contains _ => memo

def serveAll (memo : Memo) (requests : List Request) : Memo :=
  requests.foldl serve memo

def answers (memo : Memo) : List Request → List Answer
  | [] => []
  | request :: rest => memo.answer request :: (memo.serve request).answers rest

section History

def Request.insertion? : Request → Option (Pair × Execution)
  | .insert p execution => some (p, execution)
  | .lookup _ | .contains _ => none

def insertions (requests : List Request) : List (Pair × Execution) :=
  requests.filterMap Request.insertion?

/-- The execution of the earliest insertion for a pair, if there is one. -/
def earliest (requests : List Request) (p : Pair) : Option Execution :=
  (insertions requests).lookup p

def Request.answerFrom (stored : Pair → Option Execution) : Request → Answer
  | .lookup p => .found (stored p)
  | .insert _ _ => .inserted
  | .contains p => .contained (stored p).isSome

variable (memo : Memo) (requests : List Request)

/-- Storing an execution puts it behind what is stored already. -/
theorem peek?_insert_eq (fingerprint : Fingerprint) (goal : Goal) (execution : Execution)
    (p : Pair) :
    (memo.insert fingerprint goal execution).peek? p.1 p.2 =
      (memo.peek? p.1 p.2).or ([((fingerprint, goal), execution)].lookup p) := by
  rw [peek?_insert, List.lookup_cons, List.lookup_nil]
  by_cases hSame : p = (fingerprint, goal)
  · subst hSame
    simp
  · have hNot : ¬(fingerprint = p.1 ∧ goal = p.2) :=
      fun h => hSame (Prod.ext h.1.symm h.2.symm)
    rw [beq_eq_false_iff_ne.mpr hSame, if_neg hNot]

/-- A request adds what it inserts, behind what was there. An insertion never replaces an entry. -/
theorem peek?_serve (request : Request) (p : Pair) :
    (memo.serve request).peek? p.1 p.2 =
      (memo.peek? p.1 p.2).or (request.insertion?.toList.lookup p) := by
  cases request with
  | lookup q => exact (peek?_lookup memo q.1 p.1 q.2 p.2).trans Option.or_none.symm
  | insert q execution => exact memo.peek?_insert_eq q.1 q.2 execution p
  | contains q => exact Option.or_none.symm

/-- What is stored in the end is what was stored in the beginning, and the earliest insertion for
any other pair. -/
theorem peek?_serveAll (p : Pair) :
    (memo.serveAll requests).peek? p.1 p.2 = (memo.peek? p.1 p.2).or (earliest requests p) := by
  induction requests generalizing memo with
  | nil => exact Option.or_none.symm
  | cons request rest ih =>
      have hInsertions : insertions (request :: rest) =
          request.insertion?.toList ++ insertions rest := by
        cases request <;> rfl
      rw [earliest, hInsertions, List.lookup_append, ← Option.or_assoc, ← peek?_serve]
      exact ih (memo.serve request)

theorem contains_eq (fingerprint : Fingerprint) (goal : Goal) :
    memo.contains fingerprint goal = (memo.peek? fingerprint goal).isSome :=
  Std.HashMap.contains_eq_isSome_getElem?

theorem answer_eq (request : Request) :
    memo.answer request = request.answerFrom fun p => memo.peek? p.1 p.2 := by
  cases request with
  | lookup p => exact congrArg Answer.found (memo.lookup_fst p.1 p.2)
  | insert p execution => rfl
  | contains p => exact congrArg Answer.contained (memo.contains_eq p.1 p.2)

/-- Each answer is the one of the memo as the requests before it have left it. -/
theorem getElem?_answers (i : Nat) :
    (memo.answers requests)[i]? = requests[i]?.map (memo.serveAll (requests.take i)).answer := by
  induction requests generalizing memo i with
  | nil => rfl
  | cons request rest ih =>
      cases i with
      | zero => rfl
      | succ i => exact ih (memo.serve request) i

end History

section Counters

def Answer.isHit : Answer → Bool
  | .found execution => execution.isSome
  | .inserted | .contained _ => false

def Answer.isMiss : Answer → Bool
  | .found execution => execution.isNone
  | .inserted | .contained _ => false

variable (memo : Memo)

/-- A request raises the counter that its own answer tells. -/
theorem counters_serve (request : Request) :
    (memo.serve request).hits = memo.hits + [memo.answer request].countP Answer.isHit ∧
      (memo.serve request).misses = memo.misses + [memo.answer request].countP Answer.isMiss := by
  cases request with
  | lookup p =>
      simp only [serve, answer, lookup]
      cases memo.peek? p.1 p.2 <;> exact ⟨rfl, rfl⟩
  | insert p execution => exact ⟨rfl, rfl⟩
  | contains p => exact ⟨rfl, rfl⟩

/-- Over any requests the counters are the numbers of hits and of misses among the answers. -/
theorem counters_serveAll (requests : List Request) :
    (memo.serveAll requests).hits = memo.hits + (memo.answers requests).countP Answer.isHit ∧
      (memo.serveAll requests).misses =
        memo.misses + (memo.answers requests).countP Answer.isMiss := by
  induction requests generalizing memo with
  | nil => exact ⟨rfl, rfl⟩
  | cons request rest ih =>
      obtain ⟨hHits, hMisses⟩ := memo.counters_serve request
      obtain ⟨hLaterHits, hLaterMisses⟩ := ih (memo.serve request)
      have hAnswers : memo.answers (request :: rest) =
          [memo.answer request] ++ (memo.serve request).answers rest := rfl
      rw [hAnswers, List.countP_append, List.countP_append, ← Nat.add_assoc, ← Nat.add_assoc,
        ← hHits, ← hMisses]
      exact ⟨hLaterHits, hLaterMisses⟩

end Counters

/-- The number of entries is the number of different pairs that were inserted. -/
theorem size_serveAll (requests : List Request) :
    (empty.serveAll requests).size = ((insertions requests).map (·.1)).dedup.length := by
  apply size_eq_length_dedup
  intro p
  rw [peek?_serveAll, peek?_empty, Option.none_or, earliest, List.lookup_isSome_iff, List.mem_map]
  exact exists_congr fun entry => and_congr_right fun _ => beq_iff_eq.trans eq_comm

/-- A request that asks whether a pair has an entry. -/
def Request.isContains : Request → Bool
  | .contains _ => true
  | .lookup _ | .insert _ _ => false

/-- Asking whether an entry is there leaves the memo as it is, so such requests may be left out. -/
theorem serveAll_filter (memo : Memo) (requests : List Request) :
    memo.serveAll (requests.filter fun request => !request.isContains) =
      memo.serveAll requests := by
  induction requests generalizing memo with
  | nil => rfl
  | cons request rest ih =>
      cases request with
      | lookup p => exact ih (memo.serve (.lookup p))
      | insert p execution => exact ih (memo.serve (.insert p execution))
      | contains p => exact ih memo

section Growth

/-- The later memo has all the executions of the earlier one. -/
def Within (before after : Memo) : Prop :=
  ∀ fingerprint goal execution, before.peek? fingerprint goal = some execution →
    after.peek? fingerprint goal = some execution

theorem Within.refl (memo : Memo) : memo.Within memo :=
  fun _ _ _ h => h

theorem Within.trans {a b c : Memo} (h : a.Within b) (hNext : b.Within c) : a.Within c :=
  fun fingerprint goal execution hFound =>
    hNext fingerprint goal execution (h fingerprint goal execution hFound)

/-- Some requests lead from one memo to the other. -/
def Reaches (before after : Memo) : Prop :=
  ∃ requests, after = before.serveAll requests

theorem Reaches.refl (memo : Memo) : memo.Reaches memo :=
  ⟨[], rfl⟩

theorem Reaches.trans {a b c : Memo} (h : a.Reaches b) (hNext : b.Reaches c) : a.Reaches c := by
  obtain ⟨requests, rfl⟩ := h
  obtain ⟨more, rfl⟩ := hNext
  exact ⟨requests ++ more, (List.foldl_append ..).symm⟩

/-- A memo reached through requests has all entries it had before. -/
theorem Reaches.within {before after : Memo} (h : before.Reaches after) : before.Within after := by
  obtain ⟨requests, rfl⟩ := h
  intro fingerprint goal execution hFound
  rw [peek?_serveAll before requests (fingerprint, goal), hFound, Option.some_or]

end Growth

end Memo

end WitnessSearch
