import Mathlib.Algebra.Order.BigOperators.Group.List
import Mathlib.Algebra.Order.Ring.Nat
import WitnessSearch.Proofs.Archive.Offers
import WitnessSearch.Proofs.Archive.Tally
import WitnessSearch.Proofs.Evaluation.Faults

/-! An archive of good witnesses that are on record. What was observed of a witness is what the memo
has for its fingerprint and goal. Since the observations held for a goal differ, no fingerprint can
appear among them twice, unless its observation does not equal itself. -/

namespace WitnessSearch

variable {τ : Type} [HasCode τ]

/-- The memo has the execution that the witness was observed in. -/
def Witness.Recorded (memo : Memo) (goal : Goal) (witness : Witness τ) : Prop :=
  ∃ execution, memo.peek? witness.fingerprint goal = some execution ∧
    witness.observation = execution.observation.getD .empty

namespace Archive

/-- What holds of an archive that only good candidates on record were offered to. -/
structure Sound (good : τ → Prop) (memo : Memo) (archive : Archive τ) : Prop where
  bounded : archive.Bounded
  good : ∀ goal, ∀ witness ∈ archive.witnesses goal, witness.chromosome.Wholly good
  recorded : ∀ goal, ∀ witness ∈ archive.witnesses goal, witness.Recorded memo goal
  varied : ∀ goal, (archive.witnesses goal).Pairwise fun a b =>
    (a.observation == b.observation) = false

variable {good : τ → Prop} {memo : Memo} {archive : Archive τ}

omit [HasCode τ] in
/-- An archive stays sound while the memo only gains executions. -/
theorem Sound.later {after : Memo} (h : archive.Sound good memo) (hWithin : memo.Within after) :
    archive.Sound good after where
  bounded := h.bounded
  good := h.good
  recorded goal witness hMem := by
    obtain ⟨execution, hFound, hObservation⟩ := h.recorded goal witness hMem
    exact ⟨execution, hWithin _ _ _ hFound, hObservation⟩
  varied := h.varied

omit [HasCode τ] in
/-- An archive without witnesses has nothing that could be unsound. -/
theorem sound_of_no_witnesses (h : ∀ goal, archive.witnesses goal = []) :
    archive.Sound good memo where
  bounded goal := by
    rw [witnessCount, h goal]
    exact Nat.zero_le _
  good goal witness hMem := by rw [h goal] at hMem; cases hMem
  recorded goal witness hMem := by rw [h goal] at hMem; cases hMem
  varied goal := by rw [h goal]; exact .nil

omit [HasCode τ] in
/-- Among the witnesses of a goal a fingerprint appears at most once. Two of them would have been
observed in the one execution that is on record for it, and the archive holds no observation twice.
-/
theorem Sound.countP_le_one (h : archive.Sound good memo)
    (hReflexive : ∀ fingerprint goal execution, memo.peek? fingerprint goal = some execution →
      (execution.observation.getD .empty == execution.observation.getD .empty) = true)
    (fingerprint : Fingerprint) (goal : Goal) :
    (archive.witnesses goal).countP (fun witness => witness.fingerprint = fingerprint) ≤ 1 := by
  rw [List.countP_eq_length_filter]
  have hMember : ∀ {witness}, witness ∈ (archive.witnesses goal).filter
      (fun witness => witness.fingerprint = fingerprint) →
      witness ∈ archive.witnesses goal ∧ witness.fingerprint = fingerprint := by
    intro witness hMem
    simpa using hMem
  have hApart := (h.varied goal).filter (fun witness => witness.fingerprint = fingerprint)
  generalize (archive.witnesses goal).filter _ = same at hMember hApart
  match same with
  | [] => exact Nat.zero_le 1
  | [_] => exact Nat.le_refl 1
  | first :: second :: rest =>
      obtain ⟨hHeld, hName⟩ := hMember List.mem_cons_self
      obtain ⟨hHeld', hName'⟩ := hMember (List.mem_cons_of_mem first List.mem_cons_self)
      obtain ⟨execution, hFound, hObservation⟩ := h.recorded goal first hHeld
      obtain ⟨execution', hFound', hObservation'⟩ := h.recorded goal second hHeld'
      rw [hName] at hFound
      rw [hName', hFound] at hFound'
      obtain rfl := Option.some.inj hFound'
      have hEqual := hReflexive fingerprint goal execution hFound
      have hDiffer := (List.pairwise_cons.mp hApart).1 second List.mem_cons_self
      rw [hObservation, hObservation', hEqual] at hDiffer
      exact absurd hDiffer.symm Bool.false_ne_true

omit [HasCode τ] in
/-- So a fingerprint appears at most once for each goal. -/
theorem Sound.appearanceCount_le (h : archive.Sound good memo)
    (hAscending : Goal.Ascending archive.goals)
    (hReflexive : ∀ fingerprint goal execution, memo.peek? fingerprint goal = some execution →
      (execution.observation.getD .empty == execution.observation.getD .empty) = true)
    (fingerprint : Fingerprint) :
    archive.appearanceCount fingerprint ≤ archive.goals.length := by
  have hEach : ∀ count ∈ archive.entries.map fun entry =>
      entry.2.countP (fun witness => witness.fingerprint = fingerprint), count ≤ 1 := by
    rw [List.forall_mem_map]
    rintro ⟨goal, held⟩ hMem
    rw [← witnesses_of_mem_entries hAscending hMem]
    exact h.countP_le_one hReflexive fingerprint goal
  have hSum := List.sum_le_card_nsmul _ _ hEach
  rw [List.length_map, Nat.nsmul_eq_mul, Nat.mul_one] at hSum
  rw [appearanceCount, allWitnesses, List.countP_flatMap, goals, List.length_map]
  exact hSum

/-- Whatever a witness has to be, an offer that is so keeps an archive of such witnesses. -/
theorem forall_witnesses_offer (property : Goal → Witness τ → Prop) {goal : Goal}
    {chromosome : Chromosome τ} {observation : Option Observation} {generation : Nat}
    (h : ∀ goal, ∀ witness ∈ archive.witnesses goal, property goal witness)
    (hNew : property goal (offered chromosome observation generation)) (other : Goal) :
    ∀ witness ∈ (archive.offer goal chromosome observation generation).2.witnesses other,
      property other witness := by
  rw [offer_witnesses]
  split
  · rename_i hAccepted
    obtain ⟨rfl, -⟩ := hAccepted
    intro witness hMem
    rcases List.mem_append.mp hMem with hHeld | hLast
    · exact h other witness hHeld
    · rw [List.mem_singleton.mp hLast]
      exact hNew
  · exact h other

/-- An archive accepts no observation that equals one it holds for the goal. -/
theorem pairwise_offer {goal : Goal} (chromosome : Chromosome τ)
    (observation : Option Observation) (generation : Nat)
    (h : ∀ goal, (archive.witnesses goal).Pairwise fun a b =>
      (a.observation == b.observation) = false) (other : Goal) :
    ((archive.offer goal chromosome observation generation).2.witnesses other).Pairwise
      fun a b => (a.observation == b.observation) = false := by
  rw [offer_witnesses]
  split
  · rename_i hAccepted
    obtain ⟨rfl, hNone⟩ := hAccepted
    obtain ⟨hNew, -⟩ := (objection_eq_none_iff _ _ _).mp hNone
    refine List.pairwise_append.mpr ⟨h other, List.pairwise_singleton _ _, ?_⟩
    intro held hHeld last hLast
    rw [List.mem_singleton.mp hLast]
    exact Bool.eq_false_of_not_eq_true (List.any_eq_false.mp hNew held hHeld)
  · exact h other

/-- Offering a good candidate keeps the archive sound, provided that its execution is on record. -/
theorem Sound.offer (h : archive.Sound good memo) {goal : Goal} {chromosome : Chromosome τ}
    {execution : Execution} (hGood : chromosome.Wholly good)
    (hRecorded : memo.peek? chromosome.fingerprint goal = some execution) (generation : Nat) :
    (archive.offer goal chromosome execution.observation generation).2.Sound good memo where
  bounded := h.bounded.offer _ _ _ _
  good := forall_witnesses_offer (fun _ witness => witness.chromosome.Wholly good)
    h.good hGood
  recorded := forall_witnesses_offer _ h.recorded ⟨execution, hRecorded, rfl⟩
  varied := pairwise_offer _ _ _ h.varied

end Archive

end WitnessSearch
