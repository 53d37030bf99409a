import WitnessSearch.Archive.Basic
import WitnessSearch.Proofs.GoalOrder
import WitnessSearch.Proofs.Lists

/-! What registering a goal and offering a candidate do to the views of an archive. The witnesses of
a goal are read by lookup and need no order of the entries. The list of goals stays ascending, and
over an ascending list the open goals are those whose witnesses are too few and the covered ones are
the others. -/

namespace WitnessSearch.Archive

variable {τ : Type}

theorem lookup_cons (goal other : Goal) (held : List (Witness τ))
    (entries : List (Goal × List (Witness τ))) :
    ((goal, held) :: entries).lookup other =
      if other = goal then some held else entries.lookup other := by
  by_cases h : other = goal
  · simp [h]
  · simp [List.lookup_cons, beq_eq_false_iff_ne.mpr h, h]

/-- Giving a goal its witnesses changes the lookup of that goal and of no other. This holds in any
list of entries, in order or not. -/
theorem lookup_place (goal other : Goal) (held : List (Witness τ))
    (entries : List (Goal × List (Witness τ))) :
    (place goal held entries).lookup other =
      if other = goal then some held else entries.lookup other := by
  induction entries with
  | nil => simp only [place, lookup_cons]
  | cons entry rest ih =>
      obtain ⟨next, witnesses⟩ := entry
      cases hOrder : Goal.order goal next with
      | lt => simp only [place, hOrder, lookup_cons]
      | eq =>
          have hSame : goal = next := Std.LawfulEqCmp.eq_of_compare hOrder
          subst hSame
          simp only [place, hOrder, lookup_cons]
          split <;> rfl
      | gt =>
          have hNext : next ≠ goal := by
            rintro rfl
            simp [Std.ReflCmp.compare_self] at hOrder
          simp only [place, hOrder, lookup_cons, ih]
          by_cases h : other = next
          · simp [h, hNext]
          · simp [h]

/-- Placing a goal touches its own witnesses only. -/
theorem witnesses_place (archive : Archive τ) (goal other : Goal) (held : List (Witness τ)) :
    ({ archive with entries := place goal held archive.entries } : Archive τ).witnesses other =
      if other = goal then held else archive.witnesses other := by
  by_cases h : other = goal <;> simp [witnesses, lookup_place, h]

/-- Placing a goal puts it among the goals as the ascending list does. -/
theorem keys_place (goal : Goal) (held : List (Witness τ))
    (entries : List (Goal × List (Witness τ))) :
    (place goal held entries).map (·.1) = Goal.insertSorted goal (entries.map (·.1)) := by
  induction entries with
  | nil => rfl
  | cons entry rest ih =>
      obtain ⟨next, witnesses⟩ := entry
      cases hOrder : Goal.order goal next with
      | lt => simp [place, Goal.insertSorted, hOrder]
      | eq =>
          have hSame : goal = next := Std.LawfulEqCmp.eq_of_compare hOrder
          simp [place, Goal.insertSorted, hSame, Std.ReflCmp.compare_self]
      | gt => simp [place, Goal.insertSorted, hOrder, ih]

theorem isRegistered_iff (archive : Archive τ) (goal : Goal) :
    archive.isRegistered goal = true ↔ goal ∈ archive.goals := by
  rw [isRegistered, List.lookup_isSome_iff, goals, List.mem_map]
  constructor
  · rintro ⟨entry, hEntry, hKey⟩
    exact ⟨entry, hEntry, (beq_iff_eq.mp hKey).symm⟩
  · rintro ⟨entry, hEntry, rfl⟩
    exact ⟨entry, hEntry, beq_self_eq_true _⟩

/-- Over ascending goals an entry can be read off the list, since no other entry of the goal stands
before it. -/
theorem witnesses_of_mem_entries {archive : Archive τ} (h : Goal.Ascending archive.goals)
    {goal : Goal} {held : List (Witness τ)} (hMem : (goal, held) ∈ archive.entries) :
    archive.witnesses goal = held := by
  rw [witnesses, lookup_of_mem h.nodup hMem, Option.getD_some]

theorem exists_of_mem_allWitnesses {archive : Archive τ} (h : Goal.Ascending archive.goals)
    {witness : Witness τ} (hMem : witness ∈ archive.allWitnesses) :
    ∃ goal, witness ∈ archive.witnesses goal := by
  obtain ⟨⟨goal, held⟩, hEntry, hHeld⟩ := List.mem_flatMap.mp hMem
  refine ⟨goal, ?_⟩
  rwa [witnesses_of_mem_entries h hEntry]

/-- Over the entries of an archive nothing is listed but the goals and their witnesses. -/
theorem map_entries {β : Type} {archive : Archive τ} (h : Goal.Ascending archive.goals)
    (f : Goal → List (Witness τ) → β) :
    (archive.entries.map fun entry => f entry.1 entry.2) =
      archive.goals.map fun goal => f goal (archive.witnesses goal) := by
  rw [goals, List.map_map]
  refine List.map_congr_left fun entry hMem => ?_
  rw [Function.comp_apply, witnesses_of_mem_entries h hMem]

/-- The open goals are the registered goals that are not covered. -/
theorem remainingGoals_eq_filter {archive : Archive τ} (h : Goal.Ascending archive.goals) :
    archive.remainingGoals = archive.goals.filter fun goal => !archive.isCovered goal := by
  rw [remainingGoals, goals, List.filter_map]
  congr 1
  apply List.filter_congr
  rintro ⟨goal, held⟩ hMem
  simp [isCovered, witnessCount, witnesses_of_mem_entries h hMem, ← decide_not]

/-- The covered goals are the registered ones that hold enough witnesses, in the same order. -/
theorem coveredGoals_eq_filter {archive : Archive τ} (h : Goal.Ascending archive.goals) :
    archive.coveredGoals = archive.goals.filter archive.isCovered := by
  rw [coveredGoals, goals, List.filter_map]
  congr 1
  apply List.filter_congr
  rintro ⟨goal, held⟩ hMem
  simp [isCovered, witnessCount, witnesses_of_mem_entries h hMem]

theorem witnesses_of_not_mem {archive : Archive τ} {goal : Goal} (h : goal ∉ archive.goals) :
    archive.witnesses goal = [] := by
  have hNone : archive.entries.lookup goal = none := by
    rw [← isRegistered_iff, isRegistered, Bool.not_eq_true, Option.isSome_eq_false_iff,
      Option.isNone_iff_eq_none] at h
    exact h
  simp [witnesses, hNone]

/-- Only a registered goal has witnesses, since the lookup of any other finds none. -/
theorem mem_goals_of_witnesses_ne_nil {archive : Archive τ} {goal : Goal}
    (h : archive.witnesses goal ≠ []) : goal ∈ archive.goals :=
  not_imp_comm.mp witnesses_of_not_mem h

theorem isCovered_iff {archive : Archive τ} {goal : Goal} :
    archive.isCovered goal = true ↔ archive.target ≤ archive.witnessCount goal :=
  decide_eq_true_iff

/-- A goal that needs witnesses is covered only if it is registered. -/
theorem mem_coveredGoals_iff {archive : Archive τ} (h : Goal.Ascending archive.goals)
    (hTarget : 0 < archive.target) {goal : Goal} :
    goal ∈ archive.coveredGoals ↔ archive.isCovered goal = true := by
  rw [coveredGoals_eq_filter h, List.mem_filter, and_iff_right_iff_imp, isCovered_iff]
  intro hCovered
  have hSome : 0 < (archive.witnesses goal).length := Nat.lt_of_lt_of_le hTarget hCovered
  exact mem_goals_of_witnesses_ne_nil (List.ne_nil_of_length_pos hSome)

theorem mem_goals_of_mem_coveredGoals {archive : Archive τ} {goal : Goal}
    (h : goal ∈ archive.coveredGoals) : goal ∈ archive.goals := by
  obtain ⟨entry, hMem, rfl⟩ := List.mem_map.mp h
  exact List.mem_map_of_mem (List.mem_filter.mp hMem).1

/-- A goal is open if it is registered and short of witnesses. -/
theorem mem_remainingGoals_iff {archive : Archive τ} (h : Goal.Ascending archive.goals)
    {goal : Goal} :
    goal ∈ archive.remainingGoals ↔ goal ∈ archive.goals ∧ archive.isCovered goal = false := by
  rw [remainingGoals_eq_filter h, List.mem_filter, Bool.not_eq_true']

@[simp] theorem register_target (archive : Archive τ) (goal : Goal) :
    (archive.register goal).2.target = archive.target := by
  unfold register
  split <;> rfl

/-- Registering a goal changes no witnesses, neither its own nor those of another goal. -/
@[simp] theorem register_witnesses (archive : Archive τ) (goal other : Goal) :
    (archive.register goal).2.witnesses other = archive.witnesses other := by
  unfold register
  split
  · rfl
  · rename_i hNew
    rw [witnesses_place]
    by_cases h : other = goal
    · subst h
      rw [isRegistered_iff] at hNew
      simp [witnesses_of_not_mem hNew]
    · simp [h]

/-- Registering a goal covers nothing and uncovers nothing. -/
@[simp] theorem register_isCovered (archive : Archive τ) (goal other : Goal) :
    (archive.register goal).2.isCovered other = archive.isCovered other := by
  rw [Bool.eq_iff_iff, isCovered_iff, isCovered_iff]
  simp [witnessCount]

/-- A registered goal takes its place among the ascending goals, once. -/
theorem register_goals {archive : Archive τ} (h : Goal.Ascending archive.goals) (goal : Goal) :
    (archive.register goal).2.goals = Goal.insertSorted goal archive.goals := by
  unfold register
  split
  · rename_i hKnown
    exact (Goal.insertSorted_of_mem h ((isRegistered_iff _ _).mp hKnown)).symm
  · exact keys_place goal [] archive.entries

theorem ascending_register {archive : Archive τ} (h : Goal.Ascending archive.goals) (goal : Goal) :
    Goal.Ascending (archive.register goal).2.goals := by
  rw [register_goals h]
  exact Goal.ascending_insertSorted h goal

/-- A goal that needs witnesses is not covered when it is registered. -/
theorem register_coveredGoals {archive : Archive τ} (h : Goal.Ascending archive.goals)
    (hTarget : 0 < archive.target) (goal : Goal) :
    (archive.register goal).2.coveredGoals = archive.coveredGoals := by
  have hCovered : (archive.register goal).2.isCovered = archive.isCovered :=
    funext fun other => register_isCovered archive goal other
  rw [coveredGoals_eq_filter (ascending_register h goal), coveredGoals_eq_filter h, hCovered,
    register_goals h]
  by_cases hKnown : goal ∈ archive.goals
  · rw [Goal.insertSorted_of_mem h hKnown]
  · refine Goal.filter_insertSorted ?_ archive.goals
    rw [← Bool.not_eq_true, ← mem_coveredGoals_iff h hTarget]
    exact fun hMem => hKnown (mem_goals_of_mem_coveredGoals hMem)

def registerAll (archive : Archive τ) (goals : List Goal) : Archive τ :=
  goals.foldl (fun archive goal => (archive.register goal).2) archive

theorem ascending_goals_empty (target : Nat) : Goal.Ascending (⟨target, []⟩ : Archive τ).goals :=
  List.Pairwise.nil

/-- However many goals are registered, and in whichever order, they end up ascending. -/
theorem ascending_registerAll {archive : Archive τ} (h : Goal.Ascending archive.goals)
    (goals : List Goal) : Goal.Ascending (archive.registerAll goals).goals := by
  induction goals generalizing archive with
  | nil => exact h
  | cons goal goals ih => exact ih (ascending_register h goal)

/-- The goals are those that were there before and those that were registered. -/
theorem mem_goals_registerAll {archive : Archive τ} (h : Goal.Ascending archive.goals)
    (goals : List Goal) (goal : Goal) :
    goal ∈ (archive.registerAll goals).goals ↔ goal ∈ goals ∨ goal ∈ archive.goals := by
  induction goals generalizing archive with
  | nil => simp [registerAll]
  | cons first goals ih =>
      change goal ∈ ((archive.register first).2.registerAll goals).goals ↔ _
      rw [ih (ascending_register h first), register_goals h, Goal.mem_insertSorted, List.mem_cons,
        or_left_comm, or_assoc]

theorem target_registerAll (archive : Archive τ) (goals : List Goal) :
    (archive.registerAll goals).target = archive.target := by
  induction goals generalizing archive with
  | nil => rfl
  | cons first goals ih => exact (ih _).trans (register_target archive first)

/-- Registering goals gives no witness away and adds none. -/
theorem witnesses_registerAll (archive : Archive τ) (goals : List Goal) (goal : Goal) :
    (archive.registerAll goals).witnesses goal = archive.witnesses goal := by
  induction goals generalizing archive with
  | nil => rfl
  | cons first goals ih => exact (ih _).trans (register_witnesses archive first goal)

section Offer

variable [HasCode τ]

def offered (chromosome : Chromosome τ) (observation : Option Observation) (generation : Nat) :
    Witness τ :=
  ⟨chromosome, chromosome.fingerprint, observation.getD .empty, generation⟩

def objection (target : Nat) (held : List (Witness τ)) (witness : Witness τ) : Option Rejection :=
  if held.any (·.observation == witness.observation) then some .duplicate
  else if target ≤ held.length then some .full
  else none

omit [HasCode τ] in
/-- Nothing is said against a witness exactly if its observation is new among those held and there
is a place left. -/
theorem objection_eq_none_iff (target : Nat) (held : List (Witness τ)) (witness : Witness τ) :
    objection target held witness = none ↔
      held.any (·.observation == witness.observation) = false ∧ held.length < target := by
  unfold objection
  split
  · simp [*]
  · split
    · simp [*]
    · simp_all

variable (archive : Archive τ) (goal : Goal) (chromosome : Chromosome τ)
  (observation : Option Observation) (generation : Nat)

/-- An offer looks at the witnesses of its own goal only. What it answers and what it leaves are
fixed by them and the target. -/
theorem offer_eq :
    archive.offer goal chromosome observation generation =
      match objection archive.target (archive.witnesses goal)
        (offered chromosome observation generation) with
      | some reason => (.rejected reason, (archive.register goal).2)
      | none =>
        let held := archive.witnesses goal ++ [offered chromosome observation generation]
        (.accepted (held.length = archive.target),
          { (archive.register goal).2 with
            entries := place goal held (archive.register goal).2.entries }) := by
  simp only [offer, objection, offered, register_witnesses, register_target]
  by_cases hHeld : (archive.witnesses goal).any (·.observation == observation.getD .empty) = true
  · simp only [hHeld, ↓reduceIte]
  · by_cases hFull : archive.target ≤ (archive.witnesses goal).length
    · simp only [hHeld, hFull, ↓reduceIte, Bool.false_eq_true]
    · simp only [hHeld, hFull, ↓reduceIte, Bool.false_eq_true, List.length_append,
        List.length_singleton]

@[simp] theorem offer_target :
    (archive.offer goal chromosome observation generation).2.target = archive.target := by
  rw [offer_eq]
  split <;> simp

/-- An offer adds a witness at the end of the list of its goal if there is no objection. The lists
of other goals stay as they are. -/
theorem offer_witnesses (other : Goal) :
    (archive.offer goal chromosome observation generation).2.witnesses other =
      if other = goal ∧ objection archive.target (archive.witnesses goal)
          (offered chromosome observation generation) = none then
        archive.witnesses other ++ [offered chromosome observation generation]
      else archive.witnesses other := by
  rw [offer_eq]
  cases hObjection : objection archive.target (archive.witnesses goal)
    (offered chromosome observation generation) with
  | some reason => simp
  | none =>
      simp only [witnesses_place, register_witnesses]
      by_cases h : other = goal
      · simp [h]
      · simp [h]

/-- An offer registers its goal, whether or not the candidate is accepted. -/
theorem offer_goals (h : Goal.Ascending archive.goals) :
    (archive.offer goal chromosome observation generation).2.goals =
      Goal.insertSorted goal archive.goals := by
  have hRegister := register_goals h goal
  rw [offer_eq]
  split
  · exact hRegister
  · have hPlace := keys_place goal
      (archive.witnesses goal ++ [offered chromosome observation generation])
      (archive.register goal).2.entries
    have hMem : goal ∈ Goal.insertSorted goal archive.goals :=
      (Goal.mem_insertSorted goal goal archive.goals).mpr (.inl rfl)
    calc
      _ = Goal.insertSorted goal (archive.register goal).2.goals := hPlace
      _ = Goal.insertSorted goal (Goal.insertSorted goal archive.goals) := by rw [hRegister]
      _ = Goal.insertSorted goal archive.goals :=
        Goal.insertSorted_of_mem (Goal.ascending_insertSorted h goal) hMem

end Offer

end WitnessSearch.Archive
