import WitnessSearch.Proofs.Faults
import WitnessSearch.Proofs.Float.Arithmetic
import WitnessSearch.Random.Normal

/-! What draws come to, whatever words the source has. A draw from a range stays in the range, and
nothing can go wrong but that a sampler turns word after word down until its budget is used up. -/

namespace WitnessSearch.Draw

open FloatRounding

variable {ρ α β : Type}

/-- A draw gives an answer with a property or ends in one of the given faults. -/
abbrev Yields (faults : Fault → Prop) (draw : Draw ρ α) (property : α → Prop) : Prop :=
  Guards (fun fault _ => faults fault) (fun _ => True) draw property

variable {faults : Fault → Prop}

/-- A draw yields whatever it can yield. -/
theorem yields_of_fault {draw : Draw ρ α} {property : α → Prop} (hFaults : ∀ source fault later,
    draw source = .error fault later → faults fault) (hProperty : ∀ answer, property answer) :
    Yields faults draw property := by
  intro source _
  cases hRun : draw source with
  | ok answer later => exact ⟨hProperty answer, trivial⟩
  | error fault later => exact hFaults source fault later hRun

/-- A signed integer by the word that stands for it. -/
theorem toInt_eq (x : Int64) : x.toInt =
    if x.toUInt64.toNat < 0x8000000000000000 then (x.toUInt64.toNat : Int)
    else x.toUInt64.toNat - 0x10000000000000000 := by
  change x.toUInt64.toBitVec.toInt = _
  rw [BitVec.toInt_eq_toNat_cond, UInt64.toNat_toBitVec]
  split <;> split <;> omega

/-- The span of a range wraps to zero only when every integer is in it. -/
theorem between_of_wrapped {low high : Int64} (h : low ≤ high)
    (hWrapped : high.toUInt64 - low.toUInt64 + 1 = 0) (word : UInt64) :
    low ≤ word.toInt64 ∧ word.toInt64 ≤ high := by
  have hSpan : (high.toUInt64 - low.toUInt64 + 1).toNat = 0 := congrArg UInt64.toNat hWrapped
  have hWord : word.toInt64.toUInt64 = word := rfl
  have hLow := low.toUInt64.toNat_lt
  have hHigh := high.toUInt64.toNat_lt
  have hLess := word.toNat_lt
  rw [UInt64.toNat_add, UInt64.toNat_sub, UInt64.toNat_one] at hSpan
  rw [Int64.le_iff_toInt_le, toInt_eq, toInt_eq] at h
  rw [Int64.le_iff_toInt_le, Int64.le_iff_toInt_le, toInt_eq, toInt_eq, toInt_eq, hWord]
  grind

/-- An offset below the span leads to no integer above the range. -/
theorem between_of_offset {low high : Int64} (h : low ≤ high) {offset : UInt64}
    (hOffset : offset.toNat < (high.toUInt64 - low.toUInt64 + 1).toNat) :
    low ≤ (low.toUInt64 + offset).toInt64 ∧ (low.toUInt64 + offset).toInt64 ≤ high := by
  have hMoved : (low.toUInt64 + offset).toInt64.toUInt64 = low.toUInt64 + offset := rfl
  have hLow := low.toUInt64.toNat_lt
  have hHigh := high.toUInt64.toNat_lt
  have hLess := offset.toNat_lt
  rw [UInt64.toNat_add, UInt64.toNat_sub, UInt64.toNat_one] at hOffset
  rw [Int64.le_iff_toInt_le, toInt_eq, toInt_eq] at h
  rw [Int64.le_iff_toInt_le, Int64.le_iff_toInt_le, toInt_eq, toInt_eq, toInt_eq, hMoved,
    UInt64.toNat_add]
  grind

variable [RandomSource ρ]

theorem yields_word : Yields faults (word : Draw ρ UInt64) fun _ => True :=
  fun _ _ => ⟨trivial, trivial⟩

theorem yields_of_word {next : UInt64 → α} {property : α → Prop}
    (h : ∀ word, property (next word)) :
    Yields faults (do return next (← word) : Draw ρ α) property :=
  Guards.bind yields_word fun word _ => Guards.pure (h word)

section Samplers

variable (hEndless : faults .endlessRejection)
include hEndless

/-- The high half of a product with a word is below the other factor, unless both are zero. -/
theorem yields_offsetWithin (span zone : UInt64) (budget : Nat) :
    Yields faults (offsetWithin span zone budget : Draw ρ UInt64) fun offset =>
      offset.toNat ≤ span.toNat - 1 := by
  induction budget with
  | zero => exact Confines.throw fun _ _ => hEndless
  | succ budget ih =>
      refine Guards.bind yields_word fun word _ => ?_
      dsimp only
      split
      · have hHigh : word.toNat * span.toNat / UInt64.size ≤ span.toNat - 1 := by
          rcases Nat.eq_zero_or_pos span.toNat with hZero | hSpan
          · simp [hZero]
          · refine Nat.le_sub_one_of_lt ?_
            rw [Nat.div_lt_iff_lt_mul (by decide), Nat.mul_comm]
            exact Nat.mul_lt_mul_of_pos_left word.toNat_lt hSpan
        have hFits : span.toNat - 1 < UInt64.size :=
          Nat.lt_of_le_of_lt (Nat.sub_le _ _) span.toNat_lt
        refine Guards.pure ?_
        rwa [UInt64.toNat_ofNat_of_lt' (Nat.lt_of_le_of_lt hHigh hFits)]
      · exact ih

/-- A draw below a positive bound is below it. -/
theorem yields_below {bound : Nat} (hBound : 0 < bound) :
    Yields faults (below bound : Draw ρ Nat) (· < bound) := by
  rw [below, if_neg hBound.ne']
  refine Guards.bind (yields_offsetWithin hEndless _ _ _) fun offset hOffset => Guards.pure ?_
  have hSpan : (UInt64.ofNat bound).toNat ≤ bound := Nat.mod_le bound _
  omega

/-- An index drawn for a list that is not empty is one of its positions. -/
theorem yields_index {length : Nat} (hLength : 0 < length) :
    Yields faults (index length : Draw ρ Nat) (· < length) := by
  rw [index, if_neg hLength.ne']
  exact yields_below hEndless hLength

/-- A number from a range lies between its bounds. -/
theorem yields_between {low high : Int64} (h : low ≤ high) :
    Yields faults (between low high : Draw ρ Int64) fun number => low ≤ number ∧ number ≤ high := by
  rw [between, if_neg (Int64.not_lt.mpr h)]
  dsimp only
  split
  · rename_i hWrapped
    exact Guards.bind yields_word fun word _ => Guards.pure (between_of_wrapped h hWrapped word)
  · rename_i hSpan
    have hPositive : 0 < (high.toUInt64 - low.toUInt64 + 1).toNat :=
      Nat.pos_of_ne_zero fun hZero => hSpan (UInt64.toNat_inj.mp hZero)
    refine Guards.bind (yields_offsetWithin hEndless _ _ _) fun offset hOffset => ?_
    exact Guards.pure (between_of_offset h (by omega))

end Samplers

/-- What can be the probability of an event. -/
def IsChance (probability : Float) : Prop :=
  (probability == 1.0) = true ∨ 0.0 ≤ probability ∧ probability < 1.0

/-- With a chance between zero and one a bit is drawn. -/
theorem yields_bernoulli {probability : Float} (h : IsChance probability) :
    Yields faults (bernoulli probability : Draw ρ Bool) fun _ => True := by
  unfold bernoulli
  split
  · exact Guards.pure trivial
  · rename_i hCertain
    rw [if_pos (h.resolve_left hCertain)]
    exact Guards.bind yields_word fun word _ => Guards.pure trivial

/-- A rate in the unit interval is a chance as it is. -/
theorem yields_chance {rate : Float} (hLow : 0.0 ≤ rate) (hHigh : rate ≤ 1.0) :
    Yields faults (chance rate : Draw ρ Bool) fun _ => True := by
  rw [chance, if_neg (FloatOrder.not_lt_of_le hLow), if_neg (FloatOrder.not_lt_of_le hHigh)]
  apply yields_bernoulli
  rcases FloatOrder.le_iff_lt_or_beq.mp hHigh with hLess | hOne
  · exact .inr ⟨hLow, hLess⟩
  · exact .inl hOne

/-- A double with a value up to one is a chance, since no value is negative. -/
theorem isChance_of_value {probability : Float} {v : ℚ} (h : HasValue probability v)
    (hHigh : v ≤ 1) : IsChance probability := by
  have hLess := h.lt_iff hasValue_one
  have hMore := hasValue_one.lt_iff h
  have hNegative := h.lt_iff hasValue_zero
  have hPositive := hasValue_zero.lt_iff h
  rcases lt_or_eq_of_le hHigh with hBelow | rfl
  · refine .inr ⟨FloatOrder.le_iff_lt_or_beq.mpr ?_, hLess.mpr hBelow⟩
    rcases lt_or_eq_of_le h.nonneg with hSome | rfl
    · exact .inl (hPositive.mpr hSome)
    · exact .inr <| FloatOrder.beq_of_not_lt hasValue_zero.isNaN h.isNaN
        (fun hLt => absurd (hPositive.mp hLt) (lt_irrefl _))
        (fun hLt => absurd (hNegative.mp hLt) (lt_irrefl _))
  · exact .inl <| FloatOrder.beq_of_not_lt h.isNaN hasValue_one.isNaN
      (fun hLt => absurd (hLess.mp hLt) (lt_irrefl _))
      (fun hLt => absurd (hMore.mp hLt) (lt_irrefl _))

/-- One in so many is a chance. -/
theorem isChance_inverse {count : Nat} (h : 0 < count) : IsChance (1.0 / Float.ofNat count) := by
  obtain ⟨v, hValue, hHigh⟩ := inverse_count h
  exact isChance_of_value hValue hHigh

section Normal

variable (hEndless : faults .endlessRejection)
include hEndless

/-- The tail of the normal distribution gives a double or runs out of its budget. -/
theorem yields_tailExcess (budget : Nat) :
    Yields faults (tailExcess budget : Draw ρ Float) fun _ => True := by
  have hUnit : Yields faults (openUnit : Draw ρ Float) fun _ => True :=
    yields_of_word fun _ => trivial
  induction budget with
  | zero => exact Confines.throw fun _ _ => hEndless
  | succ budget ih =>
      refine Guards.bind hUnit fun first _ => Guards.bind hUnit fun second _ => ?_
      dsimp only
      split
      · exact ih
      · exact Guards.pure trivial

/-- A normal draw gives a double, unless it is one of the draws without end. -/
theorem yields_normal : Yields faults (normal : Draw ρ Float) fun _ => True := by
  have hUnit : Yields faults (halfOpenUnit : Draw ρ Float) fun _ => True :=
    yields_of_word fun _ => trivial
  have hWithin : ∀ budget, Yields faults (normalWithin budget : Draw ρ Float) fun _ => True := by
    intro budget
    induction budget with
    | zero => exact Confines.throw fun _ _ => hEndless
    | succ budget ih =>
        refine Guards.bind yields_word fun bits _ => ?_
        dsimp only
        split
        · exact Guards.pure trivial
        split
        · exact Guards.bind (yields_tailExcess hEndless _) fun x _ => Guards.pure trivial
        · refine Guards.bind hUnit fun height _ => ?_
          split
          · exact Guards.pure trivial
          · exact ih
  exact hWithin rejectionBudget

end Normal

end WitnessSearch.Draw
