import Mathlib.Algebra.GroupWithZero.Nat
import WitnessSearch.Archive.Record
import WitnessSearch.Proofs.Archive.Entries

/-! Counting witnesses. An accepted offer adds one witness to the archive and a rejected one none,
so the size of an archive is the number of offers it accepted. No goal gets more witnesses than the
target. An archive whose goals are all covered says so in each of its reports. -/

namespace WitnessSearch

variable {τ : Type}

def Admission.gain : Admission → Nat
  | .accepted _ => 1
  | .rejected _ => 0

namespace Archive

/-- The size is the sum of the lengths of all entries. -/
theorem size_eq_sum (archive : Archive τ) :
    archive.size = (archive.entries.map fun entry => entry.2.length).sum := by
  rw [size, List.sum_eq_foldl, List.foldl_map]

/-- The size counts the members of the list of all witnesses. -/
theorem size_eq_length (archive : Archive τ) : archive.size = archive.allWitnesses.length := by
  rw [size_eq_sum, allWitnesses, List.length_flatMap]

/-- How many witnesses of some kind there are after a goal was given other witnesses. A goal put in
front of the entries was not among them, since these are in ascending order. -/
theorem countP_place (p : Witness τ → Bool) {entries : List (Goal × List (Witness τ))}
    (h : Goal.Ascending (entries.map (·.1))) (goal : Goal) (held : List (Witness τ)) :
    ((place goal held entries).flatMap (·.2)).countP p +
        ((entries.lookup goal).getD []).countP p =
      (entries.flatMap (·.2)).countP p + held.countP p := by
  induction entries with
  | nil => simp [place]
  | cons entry rest ih =>
      obtain ⟨next, witnesses⟩ := entry
      obtain ⟨hNext, hRest⟩ := List.pairwise_cons.mp h
      cases hOrder : Goal.order goal next with
      | lt =>
          have hAbsent : goal ∉ (⟨0, (next, witnesses) :: rest⟩ : Archive τ).goals := by
            intro hMem
            rcases List.mem_cons.mp hMem with rfl | hLater
            · exact Goal.order_ne_lt_self goal hOrder
            · exact Goal.order_ne_lt_self goal (Std.TransCmp.lt_trans hOrder (hNext goal hLater))
          have hNone : (((next, witnesses) :: rest).lookup goal).getD [] = [] :=
            witnesses_of_not_mem hAbsent
          simp only [place, hOrder, hNone, List.flatMap_cons, List.countP_append, List.countP_nil]
          omega
      | eq =>
          obtain rfl : goal = next := Std.LawfulEqCmp.eq_of_compare hOrder
          simp only [place, hOrder, lookup_cons, ↓reduceIte, Option.getD_some, List.flatMap_cons,
            List.countP_append]
          omega
      | gt =>
          have hOther : goal ≠ next := by
            rintro rfl
            simp [Std.ReflCmp.compare_self] at hOrder
          have hLater := ih hRest
          simp only [place, hOrder, lookup_cons, if_neg hOther, List.flatMap_cons,
            List.countP_append]
          omega

/-- Registering a goal does not change how many witnesses of a kind there are, since a new goal has
none. -/
theorem countP_register (p : Witness τ → Bool) {archive : Archive τ}
    (h : Goal.Ascending archive.goals) (goal : Goal) :
    (archive.register goal).2.allWitnesses.countP p = archive.allWitnesses.countP p := by
  unfold register
  split
  · rfl
  · rename_i hNew
    have hNone : archive.witnesses goal = [] :=
      witnesses_of_not_mem fun hMem => hNew ((isRegistered_iff _ _).mpr hMem)
    have hCount := countP_place p h goal []
    rwa [show (archive.entries.lookup goal).getD [] = [] from hNone] at hCount

@[simp] theorem size_register {archive : Archive τ} (h : Goal.Ascending archive.goals)
    (goal : Goal) : (archive.register goal).2.size = archive.size := by
  simpa [size_eq_length] using countP_register (fun _ => true) h goal

/-- However many goals are registered, the archive holds as many witnesses as before. -/
theorem size_registerAll {archive : Archive τ} (h : Goal.Ascending archive.goals)
    (goals : List Goal) : (archive.registerAll goals).size = archive.size := by
  induction goals generalizing archive with
  | nil => rfl
  | cons first goals ih => exact (ih (ascending_register h first)).trans (size_register h first)

section Offer

variable [HasCode τ] {archive : Archive τ} (goal : Goal) (chromosome : Chromosome τ)
  (observation : Option Observation) (generation : Nat)

/-- An accepted offer adds its witness and nothing else. -/
theorem countP_offer (p : Witness τ → Bool) (h : Goal.Ascending archive.goals) :
    (archive.offer goal chromosome observation generation).2.allWitnesses.countP p =
      archive.allWitnesses.countP p +
        if p (offered chromosome observation generation) then
          (archive.offer goal chromosome observation generation).1.gain
        else 0 := by
  have hRegister := ascending_register h goal
  rw [offer_eq]
  split
  · simpa [Admission.gain] using countP_register p h goal
  · have hCount := countP_place p hRegister goal
      (archive.witnesses goal ++ [offered chromosome observation generation])
    have hHeld : ((archive.register goal).2.entries.lookup goal).getD [] = archive.witnesses goal :=
      register_witnesses archive goal goal
    have hKept : ((archive.register goal).2.entries.flatMap (·.2)).countP p =
        archive.allWitnesses.countP p :=
      countP_register p h goal
    rw [hHeld, hKept, List.countP_append, List.countP_singleton] at hCount
    simp only [allWitnesses, Admission.gain] at hCount ⊢
    omega

/-- An offer adds one witness if it is accepted, and none otherwise. -/
theorem size_offer (h : Goal.Ascending archive.goals) :
    (archive.offer goal chromosome observation generation).2.size =
      archive.size + (archive.offer goal chromosome observation generation).1.gain := by
  simpa [size_eq_length] using
    countP_offer goal chromosome observation generation (fun _ => true) h

end Offer

def Bounded (archive : Archive τ) : Prop :=
  ∀ goal, archive.witnessCount goal ≤ archive.target

/-- No offer takes a goal beyond the target, since a full goal objects to every candidate. -/
theorem Bounded.offer [HasCode τ] {archive : Archive τ} (h : archive.Bounded) (goal : Goal)
    (chromosome : Chromosome τ) (observation : Option Observation) (generation : Nat) :
    (archive.offer goal chromosome observation generation).2.Bounded := by
  intro other
  rw [witnessCount, offer_target, offer_witnesses]
  split
  · rename_i hAccepted
    obtain ⟨rfl, hNone⟩ := hAccepted
    have hRoom := ((objection_eq_none_iff _ _ _).mp hNone).2
    rwa [List.length_append]
  · exact h other

/-- Offers, so many of which were accepted, lead from one archive to the other. -/
inductive Takes [HasCode τ] (before : Archive τ) : Nat → Archive τ → Prop where
  | nothing : Takes before 0 before
  | offer {accepted : Nat} {after : Archive τ} (prior : Takes before accepted after)
      (goal : Goal) (chromosome : Chromosome τ) (observation : Option Observation)
      (generation : Nat) :
      Takes before (accepted + (after.offer goal chromosome observation generation).1.gain)
        (after.offer goal chromosome observation generation).2

namespace Takes

variable [HasCode τ] {accepted : Nat} {before after : Archive τ}

theorem ascending (h : Takes before accepted after) (hBefore : Goal.Ascending before.goals) :
    Goal.Ascending after.goals := by
  induction h with
  | nothing => exact hBefore
  | offer _ goal chromosome observation generation ih =>
      rw [offer_goals _ _ _ _ _ ih]
      exact Goal.ascending_insertSorted ih goal

/-- An archive that has taken in some candidates holds that many witnesses more. -/
theorem size (h : Takes before accepted after) (hBefore : Goal.Ascending before.goals) :
    after.size = before.size + accepted := by
  induction h with
  | nothing => rfl
  | offer prior goal chromosome observation generation ih =>
      rw [size_offer _ _ _ _ (prior.ascending hBefore), ih, Nat.add_assoc]

/-- What is taken in leaves no goal with more witnesses than the target. -/
theorem bounded (h : Takes before accepted after) (hBefore : before.Bounded) : after.Bounded := by
  induction h with
  | nothing => exact hBefore
  | offer _ goal chromosome observation generation ih =>
      exact ih.offer goal chromosome observation generation

end Takes

section Reports

variable {archive : Archive τ}

/-- The report has every goal covered exactly when no goal is open. -/
theorem all_covered_iff :
    archive.coverage.all (·.covered) = true ↔ archive.remainingGoals = [] := by
  simp [coverage, remainingGoals, List.filter_eq_nil_iff]

/-- When no goal is open, each registered one has exactly the target number of witnesses. -/
theorem witnessCount_of_remainingGoals_eq_nil (hAscending : Goal.Ascending archive.goals)
    (hBounded : archive.Bounded) (h : archive.remainingGoals = []) {goal : Goal}
    (hMem : goal ∈ archive.goals) : archive.witnessCount goal = archive.target := by
  rw [remainingGoals_eq_filter hAscending, List.filter_eq_nil_iff] at h
  have hCovered : archive.target ≤ archive.witnessCount goal := by
    simpa [isCovered] using h goal hMem
  exact Nat.le_antisymm (hBounded goal) hCovered

/-- With no goal open, the least covered goal has the target number of witnesses. -/
theorem target_le_minCoverage (h : archive.remainingGoals = []) (hGoals : archive.goals ≠ []) :
    archive.target ≤ archive.minCoverage := by
  have hCounts : archive.entries.map (fun entry => entry.2.length) ≠ [] := by
    simpa [goals] using hGoals
  obtain ⟨least, hLeast⟩ := Option.isSome_iff_exists.mp (List.isSome_min?_of_ne_nil hCounts)
  obtain ⟨entry, hMem, rfl⟩ := List.mem_map.mp (List.min?_mem hLeast)
  have hFull : ¬entry.2.length < archive.target := by
    intro hShort
    have hOpen : entry.1 ∈ archive.remainingGoals :=
      List.mem_map_of_mem (List.mem_filter.mpr ⟨hMem, by simpa using hShort⟩)
    rw [h] at hOpen
    cases hOpen
  rw [minCoverage, hLeast]
  exact Nat.le_of_not_lt hFull

end Reports

end Archive

end WitnessSearch
