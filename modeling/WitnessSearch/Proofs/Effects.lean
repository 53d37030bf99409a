import WitnessSearch.Proofs.Faults

/-! Partial correctness: what is said of the runs that give an answer. The rules are those for both
outcomes with every fault allowed. -/

namespace WitnessSearch

variable {ε σ α β γ : Type}

/-- A run from a state with `before` that gives an answer gives one with `after`, which may also
speak of the state that is left. -/
def Ensures (before : σ → Prop) (run : EStateM ε σ α) (after : α → σ → Prop) : Prop :=
  ∀ ⦃state answer final⦄, before state → run state = .ok answer final → after answer final

/-- A run keeps an invariant of the state and gives an answer with a property. -/
abbrev Keeps (invariant : σ → Prop) (run : EStateM ε σ α) (property : α → Prop) : Prop :=
  Ensures invariant run fun answer state => property answer ∧ invariant state

/-- Partial correctness is what remains of a statement about both outcomes when any fault will do.
-/
theorem Ensures.confines {before : σ → Prop} {run : EStateM ε σ α} {after : α → σ → Prop}
    (h : Ensures before run after) : Confines (fun _ _ => True) before run after := by
  intro state hState
  cases hRun : run state with
  | ok answer final => exact h hState hRun
  | error fault final => trivial

section Confines

variable {faults : ε → σ → Prop} {before : σ → Prop} {after : α → σ → Prop}
  {run : EStateM ε σ α}

/-- What is confined for both outcomes ensures the good one, so a rule for the first carries over to
the second. -/
theorem Confines.ensures (h : Confines faults before run after) : Ensures before run after :=
  fun _ _ _ hState hRun => h.answer hState hRun

/-- What runs that start in one state ensure, whatever faults they may end in. -/
theorem Ensures.of_state
    (h : ∀ state, before state → Confines (fun _ _ => True) (· = state) run after) :
    Ensures before run after :=
  (Confines.of_state h).ensures

/-- More can be said of the answers when it has been shown apart from the faults. -/
theorem Confines.and_ensures {after' : α → σ → Prop} (h : Confines faults before run after)
    (hAfter : Ensures before run after') :
    Confines faults before run fun answer state => after answer state ∧ after' answer state := by
  intro state hState
  have hOutcome := h hState
  cases hRun : run state with
  | ok answer final => exact ⟨by rwa [hRun] at hOutcome, hAfter hState hRun⟩
  | error fault final => rwa [hRun] at hOutcome

end Confines

namespace Ensures

variable {before : σ → Prop} {after : α → σ → Prop} {run : EStateM ε σ α}

theorem weaken {after' : α → σ → Prop} (h : Ensures before run after)
    (hAfter : ∀ answer state, after answer state → after' answer state) :
    Ensures before run after' :=
  fun _ _ _ hState hRun => hAfter _ _ (h hState hRun)

theorem strengthen {before' : σ → Prop} (h : Ensures before run after)
    (hBefore : ∀ state, before' state → before state) : Ensures before' run after :=
  fun _ _ _ hState hRun => h (hBefore _ hState) hRun

/-- An answer is what the run has given from one of the states. -/
theorem self (run : EStateM ε σ α) : Ensures before run fun answer final =>
    ∃ state, before state ∧ run state = .ok answer final :=
  fun state _ _ hState hRun => ⟨state, hState, hRun⟩

protected theorem pure {a : α} (h : ∀ state, before state → after a state) :
    Ensures before (pure a : EStateM ε σ α) after :=
  (Confines.pure h : Confines (fun _ _ => True) _ _ _).ensures

/-- The condition that a first run leaves is the one that the rest begins with. -/
protected theorem bind {between : α → σ → Prop} {after : β → σ → Prop}
    {next : α → EStateM ε σ β} (hRun : Ensures before run between)
    (hNext : ∀ a, Ensures (between a) (next a) after) : Ensures before (run >>= next) after :=
  (hRun.confines.bind fun a => (hNext a).confines).ensures

/-- Reading the state changes nothing. What follows may count on the answer being the state. -/
theorem get_bind {next : σ → EStateM ε σ α}
    (h : ∀ current, before current → Ensures (· = current) (next current) after) :
    Ensures before (get >>= next) after :=
  (Confines.get_bind fun current hCurrent => (h current hCurrent).confines).ensures

/-- What follows may as well count on no more than what was known of the state. -/
theorem inspect_bind {next : σ → EStateM ε σ α}
    (h : ∀ current, before current → Ensures before (next current) after) :
    Ensures before (get >>= next) after :=
  get_bind fun current hCurrent => (h current hCurrent).strengthen fun _ hSame => hSame ▸ hCurrent

section Stages

variable {δ : Type} {stage : δ → σ → Prop}

/-- The stages that a computation goes through, made for every member of a list in turn, with a
trace of what leads from one to the next. -/
protected theorem mapM_traced {shown : γ → β} {related : α → γ → Prop} {absorb : δ → γ → δ}
    {next : α → EStateM ε σ β} {xs : List α}
    (h : ∀ x ∈ xs, ∀ d, Ensures (stage d) (next x) fun y state =>
      ∃ z, shown z = y ∧ related x z ∧ stage (absorb d z) state) (d : δ) :
    Ensures (stage d) (xs.mapM next) fun ys state =>
      ∃ zs, zs.map shown = ys ∧ List.Forall₂ related xs zs ∧ stage (zs.foldl absorb d) state :=
  (Confines.mapM_traced (fun x hx d => (h x hx d).confines) d).ensures

/-- The stages that a computation goes through, made for every member of a list in turn, follow a
fold over its answers. -/
protected theorem mapM {related : α → β → Prop} {absorb : δ → β → δ} {next : α → EStateM ε σ β}
    {xs : List α}
    (h : ∀ x ∈ xs, ∀ d, Ensures (stage d) (next x) fun y state =>
      related x y ∧ stage (absorb d y) state) (d : δ) :
    Ensures (stage d) (xs.mapM next) fun ys state =>
      List.Forall₂ related xs ys ∧ stage (ys.foldl absorb d) state :=
  (Confines.mapM_staged (fun x hx d => (h x hx d).confines) d).ensures

end Stages

end Ensures

namespace Keeps

variable {invariant : σ → Prop} {property : α → Prop} {run : EStateM ε σ α}

protected theorem pure {a : α} (h : property a) :
    Keeps invariant (pure a : EStateM ε σ α) property :=
  Ensures.pure fun _ hState => ⟨h, hState⟩

theorem weaken {property' : α → Prop} (h : Keeps invariant run property)
    (hProperty : ∀ a, property a → property' a) : Keeps invariant run property' :=
  Ensures.weaken h fun a _ hAfter => ⟨hProperty a hAfter.1, hAfter.2⟩

/-- What a run is followed by may count on the property of its answer. -/
protected theorem bind {property' : β → Prop} {next : α → EStateM ε σ β}
    (hRun : Keeps invariant run property)
    (hNext : ∀ a, property a → Keeps invariant (next a) property') :
    Keeps invariant (run >>= next) property' :=
  Ensures.bind hRun fun a _ _ _ hState h => hNext a hState.1 hState.2 h

/-- What holds of the state is known when the state is looked at. -/
theorem get_bind {next : σ → EStateM ε σ α}
    (h : ∀ current, invariant current → Keeps invariant (next current) property) :
    Keeps invariant (get >>= next) property :=
  Ensures.inspect_bind h

/-- A computation made for every member of a list gives one answer for each, in order. -/
protected theorem mapM {related : α → β → Prop} {next : α → EStateM ε σ β} {xs : List α}
    (h : ∀ x ∈ xs, Keeps invariant (next x) (related x)) :
    Keeps invariant (xs.mapM next) (List.Forall₂ related xs) :=
  (Guards.mapM fun x hx => (h x hx).confines).ensures

end Keeps

end WitnessSearch
