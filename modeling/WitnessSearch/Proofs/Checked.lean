import WitnessSearch.Number.Checked

/-! When checked operations give an answer, and which. An answer is the exact one, and there is one
whenever it fits. Longer computations are judged by what their parts come to: each answer has a
property, and where the computation is known to be safe there is an answer. -/

namespace WitnessSearch.Checked

/-- What is fetched is the element at the place, so a fetch that answers was in range. -/
theorem fetch_eq_ok_iff {α : Type} {xs : List α} {i : Nat} {x : α} :
    fetch xs.toArray i = .ok x ↔ xs[i]? = some x := by
  rw [fetch, List.getElem?_toArray]
  cases xs[i]? <;> simp

/-- An index within the array is read without a fault. -/
theorem fetch_of_lt {α : Type} {xs : List α} {i : Nat} (h : i < xs.length) :
    fetch xs.toArray i = .ok xs[i] :=
  fetch_eq_ok_iff.mpr (List.getElem?_eq_getElem h)

/-- A sum of counts is answered exactly if it is a count. -/
theorem addCounts_eq_ok_iff {a b sum : Nat} :
    addCounts a b = .ok sum ↔ a + b < countLimit ∧ sum = a + b := by
  by_cases h : a + b < countLimit <;> simp [addCounts, h, eq_comm]

/-- A product of counts is answered exactly if it is a count. -/
theorem mulCounts_eq_ok_iff {a b product : Nat} :
    mulCounts a b = .ok product ↔ a * b < countLimit ∧ product = a * b := by
  by_cases h : a * b < countLimit <;> simp [mulCounts, h, eq_comm]

/-- A difference of counts is answered exactly if it does not go below zero. -/
theorem subCounts_eq_ok_iff {a b difference : Nat} :
    subCounts a b = .ok difference ↔ b ≤ a ∧ difference = a - b := by
  by_cases h : b ≤ a <;> simp [subCounts, h, eq_comm]

/-- There is room for a list exactly if all its bytes fit into one list. -/
theorem reserve_eq_ok_iff {elementBytes count : Nat} :
    reserve elementBytes count = .ok () ↔ elementBytes * count ≤ listBytes := by
  by_cases h : elementBytes * count ≤ listBytes <;> simp [reserve, h]

/-- Making room only fails for want of room. -/
theorem of_reserve_eq_error {elementBytes count : Nat} {fault : Fault}
    (h : reserve elementBytes count = .error fault) :
    ¬elementBytes * count ≤ listBytes ∧ fault = .capacityOverflow := by
  unfold reserve at h
  split at h
  · cases h
  · rename_i hFull
    cases h
    exact ⟨hFull, rfl⟩

/-- A product of counts fails for one reason only. -/
theorem of_mulCounts_eq_error {a b : Nat} {fault : Fault} (h : mulCounts a b = .error fault) :
    countLimit ≤ a * b ∧ fault = .countOverflow := by
  unfold mulCounts at h
  split at h
  · cases h
  · rename_i hMany
    cases h
    exact ⟨Nat.not_lt.mp hMany, rfl⟩

/-- The integers that are values of 64-bit signed words. -/
def InRange (value : Int) : Prop :=
  -0x8000000000000000 ≤ value ∧ value < 0x8000000000000000

theorem fitsInt64_iff {value : Int} : fitsInt64 value = true ↔ InRange value := by
  have hLow : Int64.minValue.toInt = -0x8000000000000000 := by decide
  have hHigh : Int64.maxValue.toInt = 0x7fffffffffffffff := by decide
  rw [fitsInt64, hLow, hHigh, Bool.and_eq_true, decide_eq_true_eq, decide_eq_true_eq, InRange]
  omega

/-- An integer in the range is the value of the word made from it. -/
theorem toInt_ofInt {value : Int} (h : InRange value) : (Int64.ofInt value).toInt = value :=
  Int64.toInt_ofInt_of_le h.1 h.2

/-- What is saturated is the nearest integer in range. -/
theorem toInt_saturate (value : Int) :
    (saturate value).toInt = max (-0x8000000000000000) (min 0x7fffffffffffffff value) := by
  have hLow : Int64.minValue.toInt = -0x8000000000000000 := by decide
  have hHigh : Int64.maxValue.toInt = 0x7fffffffffffffff := by decide
  unfold saturate
  split
  · omega
  · split
    · omega
    · rw [toInt_ofInt ⟨by omega, by omega⟩]
      omega

/-- An integer is refused exactly if it is out of range. -/
theorem narrow_eq_error_iff {fault fault' : Fault} {value : Int} :
    narrow fault value = .error fault' ↔ ¬InRange value ∧ fault' = fault := by
  by_cases h : InRange value
  · simp [narrow, fitsInt64_iff.mpr h, h]
  · simp [narrow, mt fitsInt64_iff.mp h, h, eq_comm]

section Answers

variable {α β : Type} {safe : Prop}

/-- An answer has a property. There is an answer unless the computation is unsafe. -/
def Answers (safe : Prop) (result : Except Fault α) (property : α → Prop) : Prop :=
  match result with
  | .ok answer => property answer
  | .error _ => ¬safe

namespace Answers

variable {result : Except Fault α} {property : α → Prop}

/-- A computation that is safe has an answer, and the answer has the property. -/
theorem exists_answer (h : Answers safe result property) (hSafe : safe) :
    ∃ answer, result = .ok answer ∧ property answer := by
  cases result with
  | ok answer => exact ⟨answer, rfl, h⟩
  | error fault => exact absurd hSafe h

/-- Whether or not a computation is safe, an answer that it gives has the property. -/
theorem of_eq_ok (h : Answers safe result property) {answer : α} (hResult : result = .ok answer) :
    property answer := by
  rwa [hResult] at h

/-- What is known of an answer may be weakened. -/
theorem weaken {property' : α → Prop} (h : Answers safe result property)
    (hProperty : ∀ answer, property answer → property' answer) : Answers safe result property' := by
  cases result with
  | ok answer => exact hProperty answer h
  | error fault => exact h

protected theorem pure {answer : α} (h : property answer) :
    Answers safe (pure answer) property :=
  h

/-- The answer of a first part is handed on with its property, and the whole is as safe as its
parts. -/
protected theorem bind {property' : β → Prop} {next : α → Except Fault β}
    (h : Answers safe result property)
    (hNext : ∀ answer, property answer → Answers safe (next answer) property') :
    Answers safe (result >>= next) property' := by
  cases result with
  | ok answer => exact hNext answer h
  | error fault => exact h

end Answers

/-- An integer is narrowed to the word of its value if it is in the range. -/
theorem answers_narrow {fault : Fault} {value : Int} (h : safe → InRange value) :
    Answers safe (narrow fault value) (·.toInt = value) := by
  unfold narrow
  split
  · rename_i hFits
    exact toInt_ofInt (fitsInt64_iff.mp hFits)
  · rename_i hFits
    exact fun hSafe => hFits (fitsInt64_iff.mpr (h hSafe))

/-- A checked sum is the exact one, and there is one if the exact sum is in the range. -/
theorem answers_add {a b : Int64} (h : safe → InRange (a.toInt + b.toInt)) :
    Answers safe (add a b) (·.toInt = a.toInt + b.toInt) :=
  answers_narrow h

/-- A checked difference answers with the exact one wherever that is in range. -/
theorem answers_sub {a b : Int64} (h : safe → InRange (a.toInt - b.toInt)) :
    Answers safe (sub a b) (·.toInt = a.toInt - b.toInt) :=
  answers_narrow h

/-- A checked product is the exact one, and there is one if the exact product is in the range. -/
theorem answers_mul {a b : Int64} (h : safe → InRange (a.toInt * b.toInt)) :
    Answers safe (mul a b) (·.toInt = a.toInt * b.toInt) :=
  answers_narrow h

end Answers

/-- What is clamped is the nearest integer between the bounds. -/
theorem exists_clamp {low high : Int64} (h : low ≤ high) (value : Int64) :
    ∃ clamped, clamp low high value = .ok clamped ∧
      clamped.toInt = max low.toInt (min high.toInt value.toInt) := by
  rw [clamp, if_neg (Int64.not_lt.mpr h)]
  refine ⟨_, rfl, ?_⟩
  rw [Int64.le_iff_toInt_le] at h
  simp only [Int64.lt_iff_toInt_lt]
  split
  · omega
  · split <;> omega

end WitnessSearch.Checked
