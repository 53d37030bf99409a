import WitnessSearch.Execution
import Std.Data.HashMap

/-! The memo of executions. It stores one execution for each pair of a fingerprint and a goal, and
the first one stored stays. Lookups are counted by whether they found an entry; asking whether there
is an entry is not counted. -/

namespace WitnessSearch

structure Memo where
  entries : Std.HashMap (Fingerprint × Goal) Execution
  /-- Lookups that found an entry. -/
  hits : Nat
  /-- Lookups that found none. -/
  misses : Nat

/-- How much a memo holds and how it was used. -/
structure MemoStats where
  entries : Nat
  hits : Nat
  misses : Nat
deriving DecidableEq

namespace Memo

def empty : Memo :=
  ⟨∅, 0, 0⟩

instance : Inhabited Memo := ⟨empty⟩

def peek? (memo : Memo) (fingerprint : Fingerprint) (goal : Goal) : Option Execution :=
  memo.entries[(fingerprint, goal)]?

def lookup (memo : Memo) (fingerprint : Fingerprint) (goal : Goal) : Option Execution × Memo :=
  match memo.peek? fingerprint goal with
  | some execution => (some execution, { memo with hits := memo.hits + 1 })
  | none => (none, { memo with misses := memo.misses + 1 })

def insert (memo : Memo) (fingerprint : Fingerprint) (goal : Goal) (execution : Execution) : Memo :=
  { memo with entries := memo.entries.insertIfNew (fingerprint, goal) execution }

def contains (memo : Memo) (fingerprint : Fingerprint) (goal : Goal) : Bool :=
  memo.entries.contains (fingerprint, goal)

def size (memo : Memo) : Nat :=
  memo.entries.size

def isEmpty (memo : Memo) : Bool :=
  memo.size = 0

def stats (memo : Memo) : MemoStats :=
  ⟨memo.size, memo.hits, memo.misses⟩

end Memo

end WitnessSearch
