import Mathlib.Order.Interval.Finset.Nat
import WitnessSearch.Proofs.Random.Draws

/-! Draws of an index are fair. A word that is not turned down leads to one outcome, every outcome
is led to by as many words as any other, and a draw answers with the outcome of the first word of
the source that is not turned down. -/

namespace WitnessSearch.Draw

/-- The number of words that lead to each outcome of a draw below `span`. It is the largest power of
two such that all outcomes together are led to by no more words than there are. -/
def fairShare (span : Nat) : Nat :=
  2 ^ (63 - span.log2)

/-- The outcome that a word leads to. There is none if the word is turned down. -/
def outcome? (span word : Nat) : Option Nat :=
  if word * span % UInt64.size < span * fairShare span then some (word * span / UInt64.size)
  else none

section Words

variable {span : Nat} (hSpan : 0 < span) (hSize : span < UInt64.size)
include hSpan hSize

/-- The shares of all outcomes together are fewer than the words. -/
theorem mul_fairShare_lt : span * fairShare span < UInt64.size := by
  have hLog : span.log2 < 64 := (Nat.log2_lt hSpan.ne').mpr hSize
  calc span * fairShare span
      < 2 ^ (span.log2 + 1) * 2 ^ (63 - span.log2) :=
        Nat.mul_lt_mul_of_pos_right Nat.lt_log2_self (Nat.two_pow_pos _)
    _ = 2 ^ 64 := by
        rw [← pow_add]
        congr 1
        omega

/-- The zone has as many words as all outcomes have with equal shares. -/
theorem toNat_acceptedZone :
    (acceptedZone (UInt64.ofNat span)).toNat + 1 = span * fairShare span := by
  have hLess := mul_fairShare_lt hSpan hSize
  have hToNat : (UInt64.ofNat span).toNat = span := UInt64.toNat_ofNat_of_lt' hSize
  have hShift : (63 - span.log2).toUInt64.toNat % 64 = 63 - span.log2 := by
    simp
    omega
  have hShifted : (UInt64.ofNat span <<< (63 - span.log2).toUInt64).toNat =
      span * fairShare span := by
    rw [UInt64.toNat_shiftLeft, hShift, hToNat, Nat.shiftLeft_eq]
    exact Nat.mod_eq_of_lt hLess
  have hPositive : 0 < span * fairShare span := Nat.mul_pos hSpan (Nat.two_pow_pos _)
  have hOne : (1 : UInt64) ≤ UInt64.ofNat span <<< (63 - span.log2).toUInt64 := by
    rw [UInt64.le_iff_toNat_le, hShifted]
    exact hPositive
  rw [acceptedZone, hToNat, UInt64.toNat_sub_of_le _ _ hOne, hShifted]
  exact Nat.sub_add_cancel hPositive

/-- A word leads to an outcome if its product is in the interval of the outcome and in the accepted
part of it. -/
theorem outcome?_eq_some_iff {word outcome : Nat} :
    outcome? span word = some outcome ↔
      outcome * UInt64.size ≤ word * span ∧
        word * span < outcome * UInt64.size + span * fairShare span := by
  have hLess := mul_fairShare_lt hSpan hSize
  have hParts := Nat.div_add_mod (word * span) UInt64.size
  have hRest := Nat.mod_lt (word * span) (by decide : 0 < UInt64.size)
  simp only [outcome?, Option.ite_none_right_eq_some, Option.some.injEq]
  constructor
  · rintro ⟨hAccepted, rfl⟩
    rw [Nat.mul_comm]
    omega
  · rintro ⟨hLow, hHigh⟩
    have hOutcome : word * span / UInt64.size = outcome := by
      apply Nat.div_eq_of_lt_le hLow
      rw [Nat.succ_mul]
      omega
    rw [hOutcome, Nat.mul_comm] at hParts
    exact ⟨by omega, hOutcome⟩

theorem outcome_lt {word outcome : Nat} (hWord : word < UInt64.size)
    (h : outcome? span word = some outcome) : outcome < span := by
  have hProduct := Nat.mul_lt_mul_of_pos_right hWord hSpan
  have hLow := ((outcome?_eq_some_iff hSpan hSize).mp h).1
  rw [Nat.mul_comm UInt64.size span] at hProduct
  exact Nat.lt_of_mul_lt_mul_right (hLow.trans_lt hProduct)

omit hSize in
/-- From some factor on the multiples of the span are not below a bound. -/
theorem exists_first_multiple (bound : Nat) : ∃ first, ∀ n, first ≤ n ↔ bound ≤ n * span := by
  refine ⟨(bound + (span - 1)) / span, fun n => ?_⟩
  rw [← Nat.lt_succ_iff, Nat.div_lt_iff_lt_mul hSpan, Nat.succ_mul]
  omega

/-- Every outcome is led to by as many words as any other. Their products fill an interval of one
length, and it ends before the product of the last word. -/
theorem card_words {outcome : Nat} (hOutcome : outcome < span) :
    ((Finset.range UInt64.size).filter (outcome? span · = some outcome)).card =
      fairShare span := by
  obtain ⟨first, hFirst⟩ := exists_first_multiple hSpan (outcome * UInt64.size)
  have hLast : ∀ word, word < first + fairShare span ↔
      word * span < outcome * UInt64.size + span * fairShare span := by
    intro word
    by_cases hFew : word < fairShare span
    · have hProduct := Nat.mul_lt_mul_of_pos_right hFew hSpan
      rw [Nat.mul_comm (fairShare span)] at hProduct
      omega
    · obtain ⟨more, rfl⟩ := Nat.exists_eq_add_of_le' (Nat.le_of_not_lt hFew)
      have hMore := hFirst more
      rw [Nat.add_mul, Nat.mul_comm (fairShare span)]
      omega
  have hWords : (Finset.range UInt64.size).filter (outcome? span · = some outcome) =
      Finset.Ico first (first + fairShare span) := by
    ext word
    rw [Finset.mem_filter, Finset.mem_range, outcome?_eq_some_iff hSpan hSize, Finset.mem_Ico,
      hFirst, hLast, and_iff_right_iff_imp]
    rintro ⟨-, hHigh⟩
    have hAbove : word * span < UInt64.size * span := by
      calc word * span
          < outcome * UInt64.size + span * fairShare span := hHigh
        _ ≤ outcome * UInt64.size + UInt64.size :=
            Nat.add_le_add_left (mul_fairShare_lt hSpan hSize).le _
        _ = (outcome + 1) * UInt64.size := (Nat.succ_mul _ _).symm
        _ ≤ span * UInt64.size := Nat.mul_le_mul_right _ hOutcome
        _ = UInt64.size * span := Nat.mul_comm _ _
    exact Nat.lt_of_mul_lt_mul_right hAbove
  rw [hWords, Nat.card_Ico, Nat.add_sub_cancel_left]

end Words

section Draws

variable {ρ : Type} [RandomSource ρ] {span : Nat}

/-- A source comes to a word that is not turned down, which leads to an outcome. -/
inductive ComesTo (span : Nat) : ρ → Nat → ρ → Prop where
  | accepted {source : ρ} {outcome : Nat}
      (h : outcome? span (RandomSource.next source).1.toNat = some outcome) :
      ComesTo span source outcome (RandomSource.next source).2
  | refused {source final : ρ} {outcome : Nat}
      (h : outcome? span (RandomSource.next source).1.toNat = none)
      (later : ComesTo span (RandomSource.next source).2 outcome final) :
      ComesTo span source outcome final

variable (hSpan : 0 < span) (hSize : span < UInt64.size)
include hSpan hSize

/-- A sampler looks at one word and goes on if it is turned down. -/
theorem offsetWithin_succ (budget : Nat) :
    (offsetWithin (UInt64.ofNat span) (acceptedZone (UInt64.ofNat span)) (budget + 1) :
        Draw ρ UInt64) =
      word >>= fun word => match outcome? span word.toNat with
        | some outcome => pure (UInt64.ofNat outcome)
        | none => offsetWithin (UInt64.ofNat span) (acceptedZone (UInt64.ofNat span)) budget := by
  have hToNat : (UInt64.ofNat span).toNat = span := UInt64.toNat_ofNat_of_lt' hSize
  rw [offsetWithin]
  refine bind_congr fun word => ?_
  simp only [hToNat, ← Nat.lt_succ_iff, Nat.succ_eq_add_one, toNat_acceptedZone hSpan hSize]
  unfold outcome?
  split
  · simp
  · simp

/-- A sampler that answers has come to the word that leads to its answer. -/
theorem comesTo_of_offsetWithin {budget : Nat} {source final : ρ} {offset : UInt64}
    (h : offsetWithin (UInt64.ofNat span) (acceptedZone (UInt64.ofNat span)) budget source =
      .ok offset final) : ComesTo span source offset.toNat final := by
  induction budget generalizing source with
  | zero => cases h
  | succ budget ih =>
      have hWord : (word : Draw ρ UInt64) source =
          .ok (RandomSource.next source).1 (RandomSource.next source).2 := rfl
      rw [offsetWithin_succ hSpan hSize, bind_of_ok hWord] at h
      cases hOutcome : outcome? span (RandomSource.next source).1.toNat with
      | none =>
          rw [hOutcome] at h
          exact .refused hOutcome (ih h)
      | some outcome =>
          have hLess := outcome_lt hSpan hSize (UInt64.toNat_lt _) hOutcome
          rw [hOutcome] at h
          cases h
          rw [UInt64.toNat_ofNat_of_lt' (hLess.trans hSize)]
          exact .accepted hOutcome

/-- An index is drawn by the first word that is not turned down. -/
theorem comesTo_of_index {source final : ρ} {i : Nat} (h : index span source = .ok i final) :
    ComesTo span source i final := by
  rw [index, if_neg hSpan.ne', below, if_neg hSpan.ne'] at h
  obtain ⟨offset, middle, hOffset, hRest⟩ := exists_of_run_bind h
  cases hRest
  exact comesTo_of_offsetWithin hSpan hSize hOffset

omit hSpan hSize in
/-- A draw below `span` does not prefer any outcome: all are led to by equally many words, and the
first word that leads to one decides. -/
structure Fair (ρ : Type) [RandomSource ρ] (span : Nat) : Prop where
  share : ∀ outcome < span,
    ((Finset.range UInt64.size).filter (outcome? span · = some outcome)).card = fairShare span
  decided : ∀ (source final : ρ) (i : Nat), index span source = .ok i final →
    ComesTo span source i final

/-- Every outcome has the same number of accepted words. -/
theorem fair_index : Fair ρ span where
  share _ hOutcome := card_words hSpan hSize hOutcome
  decided _ _ _ h := comesTo_of_index hSpan hSize h

end Draws

end WitnessSearch.Draw
