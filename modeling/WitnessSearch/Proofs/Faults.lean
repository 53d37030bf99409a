import WitnessSearch.Proofs.Lists

/-! Computations with a state that may end in a fault. What is said of a run speaks of both of its
outcomes, so it also tells in which state a fault leaves the search. -/

namespace WitnessSearch

variable {ε σ α β γ : Type}

@[simp] theorem ok_bind (a : α) (next : α → Except ε β) : (Except.ok a >>= next) = next a := rfl

/-- If the whole gave an answer, then so did its first part. -/
theorem exists_of_bind_eq_ok {result : Except ε α} {next : α → Except ε β} {b : β}
    (h : (result >>= next) = .ok b) : ∃ a, result = .ok a ∧ next a = .ok b := by
  cases result with
  | error fault => cases h
  | ok a => exact ⟨a, rfl, h⟩

/-- If all were processed, then each has its own answer. -/
theorem related_of_mapM_eq_ok {next : α → Except ε β} {xs : List α} {ys : List β}
    (h : xs.mapM next = .ok ys) : List.Forall₂ (fun x y => next x = .ok y) xs ys := by
  induction xs generalizing ys with
  | nil =>
      rw [List.mapM_nil] at h
      cases h
      exact .nil
  | cons x xs ih =>
      rw [List.mapM_cons] at h
      obtain ⟨y, hFirst, hRest⟩ := exists_of_bind_eq_ok h
      obtain ⟨later, hLater, hAnswer⟩ := exists_of_bind_eq_ok hRest
      cases hAnswer
      exact .cons hFirst (ih hLater)

/-- If each has an answer, then all of them have. -/
theorem mapM_eq_ok_map {next : α → Except ε β} {f : α → β} {xs : List α}
    (h : ∀ x ∈ xs, next x = .ok (f x)) : xs.mapM next = .ok (xs.map f) := by
  induction xs with
  | nil => rfl
  | cons x xs ih =>
      rw [List.mapM_cons, h x List.mem_cons_self, ok_bind,
        ih fun z hz => h z (List.mem_cons_of_mem x hz)]
      rfl

/-- What follows a run that gave an answer goes on from there. -/
theorem bind_of_ok {run : EStateM ε σ α} {next : α → EStateM ε σ β} {state final : σ} {a : α}
    (h : run state = .ok a final) : (run >>= next) state = next a final := by
  change EStateM.bind run next state = _
  rw [EStateM.bind, h]

/-- A list of one element is processed as its element is. -/
theorem mapM_singleton_of_ok {run : γ → EStateM ε σ α} {x : γ} {state final : σ} {a : α}
    (h : run x state = .ok a final) : [x].mapM run state = .ok [a] final := by
  rw [List.mapM_cons]
  exact bind_of_ok h

/-- Nothing follows a run that ended in a fault. -/
theorem bind_of_error {run : EStateM ε σ α} {next : α → EStateM ε σ β} {state final : σ} {fault : ε}
    (h : run state = .error fault final) : (run >>= next) state = .error fault final := by
  change EStateM.bind run next state = _
  rw [EStateM.bind, h]

/-- A sequence that gives an answer went through both of its parts. -/
theorem exists_of_run_bind {run : EStateM ε σ α} {next : α → EStateM ε σ β} {state final : σ}
    {b : β} (h : (run >>= next) state = .ok b final) :
    ∃ a middle, run state = .ok a middle ∧ next a middle = .ok b final := by
  change EStateM.bind run next state = _ at h
  unfold EStateM.bind at h
  split at h
  · exact ⟨_, _, ‹_›, h⟩
  · cases h

/-- A computation that always gives an answer, made for every member of a list in turn. -/
theorem mapM_of_ok {next : α → EStateM ε σ β} {answer : α → β} {step : σ → α → σ}
    (h : ∀ x state, next x state = .ok (answer x) (step state x)) (xs : List α) (state : σ) :
    xs.mapM next state = .ok (xs.map answer) (xs.foldl step state) := by
  induction xs generalizing state with
  | nil => rfl
  | cons x xs ih =>
      rw [List.mapM_cons, List.map_cons, List.foldl_cons]
      exact (bind_of_ok (h x state)).trans ((bind_of_ok (ih (step state x))).trans rfl)

/-- If each member of a list has an answer, so has the list. -/
theorem exists_mapM_eq_ok {next : α → Except ε β} {related : α → β → Prop} {xs : List α}
    (h : ∀ x ∈ xs, ∃ y, next x = .ok y ∧ related x y) :
    ∃ ys, xs.mapM next = .ok ys ∧ List.Forall₂ related xs ys := by
  induction xs with
  | nil => exact ⟨[], rfl, .nil⟩
  | cons x xs ih =>
      obtain ⟨y, hFirst, hy⟩ := h x List.mem_cons_self
      obtain ⟨ys, hRest, hys⟩ := ih fun z hz => h z (List.mem_cons_of_mem x hz)
      refine ⟨y :: ys, ?_, .cons hy hys⟩
      rw [List.mapM_cons, hFirst, ok_bind, hRest]
      rfl

/-- A run from a state with `before` either gives an answer with `after` or ends in one of the
given faults. -/
def Confines (faults : ε → σ → Prop) (before : σ → Prop) (run : EStateM ε σ α)
    (after : α → σ → Prop) : Prop :=
  ∀ ⦃state⦄, before state → match run state with
    | .ok answer final => after answer final
    | .error fault final => faults fault final

/-- A run keeps an invariant of the state and gives an answer with a property, or ends in one of
the given faults. -/
abbrev Guards (faults : ε → σ → Prop) (invariant : σ → Prop) (run : EStateM ε σ α)
    (property : α → Prop) : Prop :=
  Confines faults invariant run fun answer state => property answer ∧ invariant state

namespace Confines

variable {faults : ε → σ → Prop} {before : σ → Prop} {after : α → σ → Prop}
  {run : EStateM ε σ α}

/-- An answer is confined by the condition after the run. -/
theorem answer (h : Confines faults before run after) {state final : σ} {a : α}
    (hState : before state) (hRun : run state = .ok a final) : after a final := by
  have hOutcome := h hState
  rwa [hRun] at hOutcome

theorem fault (h : Confines faults before run after) {state final : σ} {fault : ε}
    (hState : before state) (hRun : run state = .error fault final) : faults fault final := by
  have hOutcome := h hState
  rwa [hRun] at hOutcome

/-- A run that has no fault to end in gives an answer. -/
theorem exists_answer (h : Confines (fun _ _ => False) before run after) (state : σ)
    (hState : before state) : ∃ answer final, run state = .ok answer final ∧ after answer final := by
  have hOutcome := h hState
  cases hRun : run state with
  | ok answer final => exact ⟨answer, final, rfl, by rwa [hRun] at hOutcome⟩
  | error fault final =>
      rw [hRun] at hOutcome
      exact hOutcome.elim

/-- The condition after the run may be weakened. -/
theorem weaken {after' : α → σ → Prop} (h : Confines faults before run after)
    (hAfter : ∀ answer state, after answer state → after' answer state) :
    Confines faults before run after' := by
  intro state hState
  have hOutcome := h hState
  cases hRun : run state with
  | ok answer final => exact hAfter _ _ (by rwa [hRun] at hOutcome)
  | error fault final => rwa [hRun] at hOutcome

/-- The condition before the run may be strengthened. -/
theorem strengthen {before' : σ → Prop} (h : Confines faults before run after)
    (hBefore : ∀ state, before' state → before state) : Confines faults before' run after :=
  fun _ hState => h (hBefore _ hState)

/-- What holds from each of some states holds from all of them. -/
theorem of_state (h : ∀ state, before state → Confines faults (· = state) run after) :
    Confines faults before run after :=
  fun state hState => h state hState rfl

/-- What holds from all of some states holds from each of them. -/
theorem starting {state : σ} (h : Confines faults before run after) (hState : before state) :
    Confines faults (· = state) run after :=
  fun _ hSame => h (hSame ▸ hState)

/-- A fact that does not depend on the state may be used before the run begins. -/
theorem of_fact {fact : Prop} (h : fact → Confines faults before run after) :
    Confines faults (fun state => fact ∧ before state) run after :=
  fun _ hState => h hState.1 hState.2

/-- A condition with a witness may be taken apart before the run begins. -/
theorem of_exists {ι : Type} {before : ι → σ → Prop}
    (h : ∀ i, Confines faults (before i) run after) :
    Confines faults (fun state => ∃ i, before i state) run after :=
  fun _ ⟨i, hState⟩ => h i hState

protected theorem pure {a : α} (h : ∀ state, before state → after a state) :
    Confines faults before (pure a : EStateM ε σ α) after :=
  fun state hState => h state hState

/-- The condition that a first run leaves is the one that the rest begins with, and faults may come
from either. -/
protected theorem bind {between : α → σ → Prop} {after : β → σ → Prop}
    {next : α → EStateM ε σ β} (hRun : Confines faults before run between)
    (hNext : ∀ a, Confines faults (between a) (next a) after) :
    Confines faults before (run >>= next) after := by
  intro state hState
  have hOutcome := hRun hState
  change match EStateM.bind run next state with
    | .ok answer final => after answer final
    | .error fault final => faults fault final
  cases hFirst : run state with
  | ok a middle =>
      rw [hFirst] at hOutcome
      simp only [EStateM.bind, hFirst]
      exact hNext a hOutcome
  | error fault final =>
      rw [hFirst] at hOutcome
      simp only [EStateM.bind, hFirst]
      exact hOutcome

/-- Reading the state changes nothing. What follows may count on the answer being the state. -/
theorem get_bind {next : σ → EStateM ε σ α}
    (h : ∀ current, before current → Confines faults (· = current) (next current) after) :
    Confines faults before (get >>= next) after :=
  fun state hState => h state hState rfl

/-- From a given state it is known what is read. -/
theorem get_bind_of {state : σ} {next : σ → EStateM ε σ α}
    (h : Confines faults (· = state) (next state) after) :
    Confines faults (· = state) (get >>= next) after := by
  rintro _ rfl
  exact h rfl

/-- From a given state it is known what is left after a change. -/
theorem modify_bind_of {state : σ} {step : σ → σ} {next : PUnit → EStateM ε σ α}
    (h : Confines faults (· = step state) (next ⟨⟩) after) :
    Confines faults (· = state) (modify step >>= next) after := by
  rintro _ rfl
  exact h rfl

/-- From a given state it is known of which state an answer is given. -/
theorem pure_of {state : σ} {a : α} (h : after a state) :
    Confines faults (· = state) (pure a : EStateM ε σ α) after := by
  rintro _ rfl
  exact h

/-- Of a run that is known to give an answer nothing else has to be shown. -/
theorem of_ok {state final : σ} {a : α} (h : run state = .ok a final) (hAfter : after a final) :
    Confines faults (· = state) run after := by
  rintro _ rfl
  rw [h]
  exact hAfter

/-- What follows may as well count on no more than what was known of the state. -/
theorem inspect_bind {next : σ → EStateM ε σ α}
    (h : ∀ current, before current → Confines faults before (next current) after) :
    Confines faults before (get >>= next) after :=
  get_bind fun current hCurrent => (h current hCurrent).strengthen fun _ hSame => hSame ▸ hCurrent

protected theorem set {final : σ} {after : PUnit → σ → Prop}
    (h : ∀ state, before state → after ⟨⟩ final) :
    Confines faults before (set final : EStateM ε σ PUnit) after :=
  fun state hState => h state hState

/-- Changing the state raises no fault, so only what holds behind it is asked for. -/
protected theorem modify {step : σ → σ} {after : PUnit → σ → Prop}
    (h : ∀ state, before state → after () (step state)) :
    Confines faults before (modify step : EStateM ε σ PUnit) after :=
  fun state hState => h state hState

/-- Raising a fault is confined to the faults that are allowed here. -/
protected theorem throw {fault : ε} (h : ∀ state, before state → faults fault state) :
    Confines faults before (throw fault : EStateM ε σ α) after :=
  fun state hState => h state hState

/-- A result either raises its fault in the present state or leaves the state as it is. -/
protected theorem ofExcept {result : Except ε α}
    (hFault : ∀ fault state, result = .error fault → before state → faults fault state)
    (h : ∀ a state, result = .ok a → before state → after a state) :
    Confines faults before (ofExcept result : EStateM ε σ α) after := by
  cases result with
  | error fault => exact Confines.throw fun state hState => hFault fault state rfl hState
  | ok a => exact Confines.pure fun state hState => h a state rfl hState

/-- What follows a computation without a state knows what its answer is. -/
theorem bind_ofExcept {result : Except ε α} {next : α → EStateM ε σ β} {after : β → σ → Prop}
    (hFault : ∀ fault state, result = .error fault → before state → faults fault state)
    (hNext : ∀ a, result = .ok a → Confines faults before (next a) after) :
    Confines faults before (ofExcept result >>= next) after := by
  cases result with
  | error fault => exact fun state hState => hFault fault state rfl hState
  | ok a => exact hNext a rfl

/-- A computation that is known to have an answer is as good as the answer. -/
theorem ofExcept_bind {result : Except ε α} {a : α} {next : α → EStateM ε σ β}
    {after : β → σ → Prop} (hResult : result = .ok a)
    (h : Confines faults before (next a) after) :
    Confines faults before (ofExcept result >>= next) after := by
  subst hResult
  exact h

section Stages

variable {δ : Type} {stage : δ → σ → Prop}

/-- The stages that a computation goes through, made for every member of a list in turn. What leads
from one stage to the next need not be visible in the answer; there is a trace of it for each
member, and the answer is what shows of the trace. -/
protected theorem mapM_traced {shown : γ → β} {related : α → γ → Prop} {absorb : δ → γ → δ}
    {next : α → EStateM ε σ β} {xs : List α}
    (h : ∀ x ∈ xs, ∀ d, Confines faults (stage d) (next x) fun y state =>
      ∃ z, shown z = y ∧ related x z ∧ stage (absorb d z) state) (d : δ) :
    Confines faults (stage d) (xs.mapM next) fun ys state =>
      ∃ zs, zs.map shown = ys ∧ List.Forall₂ related xs zs ∧ stage (zs.foldl absorb d) state := by
  induction xs generalizing d with
  | nil => exact Confines.pure fun _ hState => ⟨[], rfl, .nil, hState⟩
  | cons x xs ih =>
      rw [List.mapM_cons]
      have hLater := ih fun z hz => h z (List.mem_cons_of_mem x hz)
      refine Confines.bind (h x List.mem_cons_self d) fun y => Confines.of_exists fun z => ?_
      refine Confines.of_fact fun hShown => Confines.of_fact fun hFirst => ?_
      refine Confines.bind (hLater (absorb d z)) fun ys => Confines.of_exists fun zs => ?_
      refine Confines.of_fact fun hAll => Confines.pure fun _ hRest => ?_
      exact ⟨z :: zs, by rw [List.map_cons, hShown, hAll], .cons hFirst hRest.1, hRest.2⟩

/-- The stages of a computation made for every member of a list follow a fold over its answers. -/
protected theorem mapM_staged {related : α → β → Prop} {absorb : δ → β → δ}
    {next : α → EStateM ε σ β} {xs : List α}
    (h : ∀ x ∈ xs, ∀ d, Confines faults (stage d) (next x) fun y state =>
      related x y ∧ stage (absorb d y) state) (d : δ) :
    Confines faults (stage d) (xs.mapM next) fun ys state =>
      List.Forall₂ related xs ys ∧ stage (ys.foldl absorb d) state := by
  have hTrace : ∀ x ∈ xs, ∀ d, Confines faults (stage d) (next x) fun y state =>
      ∃ z, id z = y ∧ related x z ∧ stage (absorb d z) state :=
    fun x hx d => (h x hx d).weaken fun y _ hAfter => ⟨y, rfl, hAfter⟩
  refine (Confines.mapM_traced hTrace d).weaken ?_
  rintro ys state ⟨zs, rfl, hAfter⟩
  rwa [List.map_id]

end Stages

end Confines

/-- Steps taken one after another, one for each member of a list, with their answers. -/
inductive Successive (step : σ → α → β → σ → Prop) : σ → List α → List β → σ → Prop where
  | nil (state : σ) : Successive step state [] [] state
  | cons {state middle final : σ} {x : α} {y : β} {xs : List α} {ys : List β}
      (first : step state x y middle) (later : Successive step middle xs ys final) :
      Successive step state (x :: xs) (y :: ys) final

/-- A chain of steps has as many answers as it has steps. -/
theorem Successive.length_eq {step : σ → α → β → σ → Prop} {state final : σ} {xs : List α}
    {ys : List β} (h : Successive step state xs ys final) : ys.length = xs.length := by
  induction h with
  | nil => rfl
  | cons _ _ ih => rw [List.length_cons, List.length_cons, ih]

/-- A computation made for every member of a list takes its steps one after another, or stops at
one of the faults. -/
protected theorem Confines.mapM {faults : ε → σ → Prop} {invariant : σ → Prop}
    {step : σ → α → β → σ → Prop} {next : α → EStateM ε σ β} {xs : List α}
    (h : ∀ x ∈ xs, ∀ before, invariant before → Confines faults (· = before) (next x)
      fun y after => step before x y after ∧ invariant after)
    {before : σ} (hBefore : invariant before) :
    Confines faults (· = before) (xs.mapM next) (Successive step before xs) := by
  induction xs generalizing before with
  | nil =>
      rw [List.mapM_nil]
      exact Confines.pure fun _ hSame => hSame ▸ .nil _
  | cons x xs ih =>
      rw [List.mapM_cons]
      refine Confines.bind (h x List.mem_cons_self before hBefore) fun y => ?_
      rintro middle ⟨hFirst, hMiddle⟩
      have hLater := ih (fun z hz => h z (List.mem_cons_of_mem x hz)) hMiddle
      refine Confines.bind hLater (fun ys => ?_) rfl
      exact Confines.pure fun _ hRest => .cons hFirst hRest

namespace Guards

variable {faults : ε → σ → Prop} {invariant : σ → Prop} {property : α → Prop}
  {run : EStateM ε σ α}

protected theorem pure {a : α} (h : property a) :
    Guards faults invariant (pure a : EStateM ε σ α) property :=
  Confines.pure fun _ hState => ⟨h, hState⟩

theorem weaken {property' : α → Prop} (h : Guards faults invariant run property)
    (hProperty : ∀ a, property a → property' a) : Guards faults invariant run property' :=
  Confines.weaken h fun a _ hAfter => ⟨hProperty a hAfter.1, hAfter.2⟩

/-- What a run is followed by may count on the property of its answer. -/
protected theorem bind {property' : β → Prop} {next : α → EStateM ε σ β}
    (hRun : Guards faults invariant run property)
    (hNext : ∀ a, property a → Guards faults invariant (next a) property') :
    Guards faults invariant (run >>= next) property' :=
  Confines.bind hRun fun a _ hState => hNext a hState.1 hState.2

/-- What holds of the state is known when the state is looked at. -/
theorem get_bind {next : σ → EStateM ε σ α}
    (h : ∀ current, invariant current → Guards faults invariant (next current) property) :
    Guards faults invariant (get >>= next) property :=
  Confines.inspect_bind h

/-- A result either raises one of the given faults or is known to be what it is. -/
protected theorem ofExcept {result : Except ε α}
    (h : ∀ fault state, result = .error fault → invariant state → faults fault state) :
    Guards faults invariant (ofExcept result : EStateM ε σ α) fun a => result = .ok a :=
  Confines.ofExcept h fun _ _ hResult hState => ⟨hResult, hState⟩

/-- A computation made for every member of a list gives one answer for each, in order, or stops at
one of the faults. -/
protected theorem mapM {related : α → β → Prop} {next : α → EStateM ε σ β} {xs : List α}
    (h : ∀ x ∈ xs, Guards faults invariant (next x) (related x)) :
    Guards faults invariant (xs.mapM next) (List.Forall₂ related xs) :=
  @Confines.mapM_staged ε σ α β faults Unit (fun _ => invariant) related (fun _ _ => ()) next xs
    (fun x hx _ => h x hx) ()

/-- What follows a run matters only where the answer has the property. -/
protected theorem bind_congr {next next' : α → EStateM ε σ β}
    (h : Guards faults (fun _ => True) run property)
    (hNext : ∀ a, property a → next a = next' a) : run >>= next = run >>= next' := by
  funext state
  cases hRun : run state with
  | error fault final => rw [bind_of_error hRun, bind_of_error hRun]
  | ok a final => rw [bind_of_ok hRun, bind_of_ok hRun, hNext a (h.answer trivial hRun).1]

end Guards

end WitnessSearch
