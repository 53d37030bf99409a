import Mathlib.Data.List.Induction
import WitnessSearch.InputVector.Basic
import WitnessSearch.Proofs.Archive.Entries
import WitnessSearch.Proofs.FloatOrder

/-! The archive as a function of what was offered to it. Requests for any goals may come in any
order. The witnesses of a goal are those of its offers that brought a new observation, cut at the
target, and the answer to an offer can be read off the witnesses that are held. -/

namespace WitnessSearch

theorem Observation.beq_comm (a b : Observation) : (a == b) = (b == a) := by
  change (a.values == b.values) = (b.values == a.values)
  generalize a.values = xs
  generalize b.values = ys
  induction xs generalizing ys with
  | nil => cases ys <;> rfl
  | cons x xs ih =>
      cases ys with
      | nil => rfl
      | cons y ys => rw [List.cons_beq_cons, List.cons_beq_cons, FloatOrder.beq_comm, ih]

/-- What is offered for a goal. -/
structure Offer (τ : Type) where
  chromosome : Chromosome τ
  observation : Option Observation
  generation : Nat

namespace Offer

variable {τ : Type}

/-- The observation of an offer. A missing one counts as the empty one. -/
def value (offer : Offer τ) : Observation :=
  offer.observation.getD .empty

def witness [HasCode τ] (offer : Offer τ) : Witness τ :=
  Archive.offered offer.chromosome offer.observation offer.generation

@[simp] theorem witness_observation [HasCode τ] (offer : Offer τ) :
    offer.witness.observation = offer.value := rfl

/-- Keeps a further offer, unless its observation equals that of one kept before. -/
def keep (kept : List (Offer τ)) (offer : Offer τ) : List (Offer τ) :=
  if kept.any (·.value == offer.value) then kept else kept ++ [offer]

def distinct (offers : List (Offer τ)) : List (Offer τ) :=
  offers.foldl keep []

/-- Observations that differ both ways round. The equality of observations is symmetric. -/
def Differ (a b : Offer τ) : Prop :=
  (a.value == b.value) = false ∧ (b.value == a.value) = false

/-- One more offer is kept or dropped by what was kept of the offers before it. So the distinct
offers may be computed as the offers come in. -/
theorem distinct_append_singleton (offers : List (Offer τ)) (offer : Offer τ) :
    distinct (offers ++ [offer]) = keep (distinct offers) offer := by
  rw [distinct, List.foldl_append]
  rfl

/-- No two of the offers that are kept have equal observations. -/
theorem pairwise_distinct (offers : List (Offer τ)) : (distinct offers).Pairwise Differ := by
  induction offers using List.reverseRecOn with
  | nil => exact List.Pairwise.nil
  | append_singleton offers offer ih =>
      rw [distinct_append_singleton, keep]
      split
      · exact ih
      · rename_i hNew
        refine List.pairwise_append.mpr ⟨ih, List.pairwise_singleton _ _, ?_⟩
        intro kept hKept last hLast
        rw [List.mem_singleton.mp hLast]
        have hDiffer : (kept.value == offer.value) = false := by
          rw [Bool.not_eq_true, List.any_eq_false] at hNew
          simpa using hNew kept hKept
        exact ⟨hDiffer, by rw [Observation.beq_comm, hDiffer]⟩

end Offer

/-- What an archive can be asked to do. -/
inductive Request (τ : Type) where
  | register (goal : Goal)
  | offer (goal : Goal) (offer : Offer τ)

def Request.offersTo {τ : Type} (goal : Goal) (requests : List (Request τ)) : List (Offer τ) :=
  requests.filterMap fun
    | .register _ => none
    | .offer other made => if other = goal then some made else none

namespace Archive

variable {τ : Type} [HasCode τ]

def submit (archive : Archive τ) (goal : Goal) (offer : Offer τ) : Admission × Archive τ :=
  archive.offer goal offer.chromosome offer.observation offer.generation

def serve (archive : Archive τ) : Request τ → Archive τ
  | .register goal => (archive.register goal).2
  | .offer goal offer => (archive.submit goal offer).2

def serveAll (archive : Archive τ) (requests : List (Request τ)) : Archive τ :=
  requests.foldl serve archive

theorem serveAll_append (archive : Archive τ) (first later : List (Request τ)) :
    archive.serveAll (first ++ later) = (archive.serveAll first).serveAll later :=
  List.foldl_append

@[simp] theorem serve_target (archive : Archive τ) (request : Request τ) :
    (archive.serve request).target = archive.target := by
  cases request <;> simp [serve, submit]

@[simp] theorem serveAll_target (archive : Archive τ) (requests : List (Request τ)) :
    (archive.serveAll requests).target = archive.target := by
  induction requests generalizing archive with
  | nil => rfl
  | cons request rest ih => exact (ih _).trans (serve_target archive request)

/-- Submitting an offer registers its goal and no other one. -/
theorem submit_goals {archive : Archive τ} (h : Goal.Ascending archive.goals) (goal : Goal)
    (offer : Offer τ) :
    (archive.submit goal offer).2.goals = Goal.insertSorted goal archive.goals :=
  offer_goals archive goal _ _ _ h

theorem ascending_serve {archive : Archive τ} (h : Goal.Ascending archive.goals)
    (request : Request τ) : Goal.Ascending (archive.serve request).goals := by
  cases request with
  | register goal => exact ascending_register h goal
  | offer goal offer =>
      rw [serve, submit_goals h]
      exact Goal.ascending_insertSorted h goal

/-- The goals stay ascending over any sequence of requests. -/
theorem ascending_serveAll {archive : Archive τ} (h : Goal.Ascending archive.goals)
    (requests : List (Request τ)) : Goal.Ascending (archive.serveAll requests).goals := by
  induction requests generalizing archive with
  | nil => exact h
  | cons request rest ih => exact ih (ascending_serve h request)

/-- One request adds at most one witness to a goal, at the end. -/
theorem witnesses_prefix_serve (archive : Archive τ) (request : Request τ) (goal : Goal) :
    archive.witnesses goal <+: (archive.serve request).witnesses goal := by
  cases request with
  | register other => simp [serve]
  | offer other offer =>
      simp only [serve, submit, offer_witnesses]
      split
      · exact List.prefix_append _ _
      · exact List.prefix_rfl

/-- What a goal holds is only ever extended at its end, whatever is asked of the archive. -/
theorem witnesses_prefix_serveAll (archive : Archive τ) (requests : List (Request τ))
    (goal : Goal) : archive.witnesses goal <+: (archive.serveAll requests).witnesses goal := by
  induction requests generalizing archive with
  | nil => exact List.prefix_rfl
  | cons request rest ih => exact (witnesses_prefix_serve archive request goal).trans (ih _)

/-- An offer among kept offers that are cut at the target. A kept offer behind the cut is not held,
but then the goal is full. -/
theorem objection_take_eq_none_iff (target : Nat) (kept : List (Offer τ)) (offer : Offer τ) :
    objection target ((kept.take target).map Offer.witness) offer.witness = none ↔
      kept.any (·.value == offer.value) = false ∧ kept.length < target := by
  have hCut : ((kept.take target).map Offer.witness).length < target ↔ kept.length < target := by
    rw [List.length_map, List.length_take]
    omega
  rw [objection_eq_none_iff, hCut]
  constructor
  · rintro ⟨hAny, hLength⟩
    rw [List.take_of_length_le hLength.le] at hAny
    exact ⟨by simpa [List.any_map, Function.comp_def] using hAny, hLength⟩
  · rintro ⟨hAny, hLength⟩
    rw [List.take_of_length_le hLength.le]
    exact ⟨by simpa [List.any_map, Function.comp_def] using hAny, hLength⟩

/-- Keeping one more offer and cutting at the target is what an archive does with it. -/
theorem map_take_keep (target : Nat) (kept : List (Offer τ)) (offer : Offer τ) :
    ((Offer.keep kept offer).take target).map Offer.witness =
      if objection target ((kept.take target).map Offer.witness) offer.witness = none then
        (kept.take target).map Offer.witness ++ [offer.witness]
      else (kept.take target).map Offer.witness := by
  have hObjection := objection_take_eq_none_iff target kept offer
  rw [Offer.keep]
  by_cases hKept : kept.any (·.value == offer.value) = true
  · rw [if_pos hKept, if_neg (by rw [hObjection, hKept]; simp)]
  · rw [Bool.not_eq_true] at hKept
    rw [if_neg (by simp [hKept])]
    by_cases hLength : kept.length < target
    · have hAll : (kept ++ [offer]).length ≤ target := by rwa [List.length_append]
      rw [if_pos (hObjection.mpr ⟨hKept, hLength⟩), List.take_of_length_le hAll,
        List.take_of_length_le hLength.le, List.map_append]
      rfl
    · rw [if_neg (by rw [hObjection]; simp [hLength]),
        List.take_append_of_le_length (Nat.le_of_not_lt hLength)]

/-- The witnesses of a goal are the distinct offers made to it, cut at the target. The induction is
on the requests from the last one, since an offer is judged by those before it. -/
theorem witnesses_eq_take_distinct (target : Nat) (requests : List (Request τ)) (goal : Goal) :
    ((⟨target, []⟩ : Archive τ).serveAll requests).witnesses goal =
      ((Offer.distinct (Request.offersTo goal requests)).take target).map Offer.witness := by
  induction requests using List.reverseRecOn with
  | nil => simp [Request.offersTo, Offer.distinct, serveAll, witnesses]
  | append_singleton requests request ih =>
      rw [serveAll_append, serveAll, List.foldl_cons, List.foldl_nil]
      cases request with
      | register other => simpa [serve, Request.offersTo] using ih
      | offer other offer =>
          simp only [serve, submit, offer_witnesses, serveAll_target]
          by_cases hGoal : goal = other
          · subst hGoal
            have hOffers : Request.offersTo goal (requests ++ [.offer goal offer]) =
                Request.offersTo goal requests ++ [offer] := by
              simp [Request.offersTo]
            rw [hOffers, Offer.distinct_append_singleton, map_take_keep, ih]
            simp only [true_and]
            rfl
          · have hOffers : Request.offersTo goal (requests ++ [.offer other offer]) =
                Request.offersTo goal requests := by
              simp [Request.offersTo, Ne.symm hGoal]
            rw [hOffers, if_neg (fun h => hGoal h.1)]
            exact ih

/-- The answer to an offer is decided by the witnesses that its goal holds before the offer. The
goal is covered by it if the witness is the last one wanted. -/
theorem submit_answer (archive : Archive τ) (goal : Goal) (offer : Offer τ) :
    (archive.submit goal offer).1 =
      match objection archive.target (archive.witnesses goal) offer.witness with
      | some reason => .rejected reason
      | none => .accepted ((archive.witnesses goal).length + 1 = archive.target) := by
  rw [submit, offer_eq]
  change (match objection archive.target (archive.witnesses goal) offer.witness with
    | some reason => _
    | none => _ : Admission × Archive τ).1 = _
  split <;> simp

/-- The three answers by what is held for the goal. -/
theorem submit_answer_iff (archive : Archive τ) (goal : Goal) (offer : Offer τ) :
    ((archive.submit goal offer).1 = .rejected .duplicate ↔
      ∃ witness ∈ archive.witnesses goal, witness.observation == offer.value) ∧
    ((archive.submit goal offer).1 = .rejected .full ↔
      (∀ witness ∈ archive.witnesses goal, (witness.observation == offer.value) = false) ∧
        archive.target ≤ (archive.witnesses goal).length) ∧
    ((∃ covered, (archive.submit goal offer).1 = .accepted covered) ↔
      (∀ witness ∈ archive.witnesses goal, (witness.observation == offer.value) = false) ∧
        (archive.witnesses goal).length < archive.target) := by
  rw [submit_answer, objection, Offer.witness_observation]
  cases hHeld : (archive.witnesses goal).any (·.observation == offer.value) with
  | true =>
      obtain ⟨witness, hMem, hEqual⟩ := List.any_eq_true.mp hHeld
      have hNotAll : ¬∀ witness ∈ archive.witnesses goal,
          (witness.observation == offer.value) = false := by
        intro hAll
        simp [hAll witness hMem] at hEqual
      refine ⟨?_, ?_, ?_⟩
      · simpa using ⟨witness, hMem, hEqual⟩
      · simp [hNotAll]
      · simp [hNotAll]
  | false =>
      have hAll : ∀ witness ∈ archive.witnesses goal,
          (witness.observation == offer.value) = false := by
        simpa using List.any_eq_false.mp hHeld
      have hNone : ¬∃ witness ∈ archive.witnesses goal, witness.observation == offer.value := by
        rintro ⟨witness, hMem, hEqual⟩
        simp [hAll witness hMem] at hEqual
      by_cases hFull : archive.target ≤ (archive.witnesses goal).length
      · simp only [Bool.false_eq_true, ↓reduceIte, hFull]
        exact ⟨by simp [hNone], by simpa using hAll, by simp [hFull]⟩
      · simp only [Bool.false_eq_true, ↓reduceIte, hFull]
        exact ⟨by simp [hNone], by simp, by simpa using ⟨hAll, Nat.lt_of_not_le hFull⟩⟩

/-- What an archive holds for a goal is fixed by the offers made to that goal. After any requests
its witnesses are the offers to it that brought a new observation, cut at the target. So they never
exceed the target and differ in their observations, no request takes one away or moves it,
registering a goal changes nothing, and requests for other goals have no influence. An offer is
answered by what is held: a duplicate is found first, whether the goal is full or not. -/
theorem holds_distinct_offers {target : Nat} (hTarget : 0 < target) :
    ∃ fresh : Archive τ, Archive.new target = .ok fresh ∧
      ∀ (requests : List (Request τ)) (goal : Goal),
        let archive := fresh.serveAll requests
        let held := archive.witnesses goal
        held = ((Offer.distinct (Request.offersTo goal requests)).take target).map Offer.witness ∧
        held.length ≤ target ∧
        held.Pairwise (fun a b => (a.observation == b.observation) = false ∧
          (b.observation == a.observation) = false) ∧
        (∀ later, held <+: (archive.serveAll later).witnesses goal) ∧
        (∀ other, (archive.register other).2.witnesses goal = held) ∧
        (∀ others, Request.offersTo goal others = Request.offersTo goal requests →
          (fresh.serveAll others).witnesses goal = held) ∧
        (∀ offer,
          ((archive.submit goal offer).1 = .rejected .duplicate ↔
            ∃ witness ∈ held, witness.observation == offer.value) ∧
          ((archive.submit goal offer).1 = .rejected .full ↔
            (∀ witness ∈ held, (witness.observation == offer.value) = false) ∧
              held.length = target) ∧
          ((∃ covered, (archive.submit goal offer).1 = .accepted covered) ↔
            (∀ witness ∈ held, (witness.observation == offer.value) = false) ∧
              held.length < target)) := by
  refine ⟨⟨target, []⟩, by rw [new, if_neg hTarget.ne'], ?_⟩
  intro requests goal archive held
  have hHeld : held =
      ((Offer.distinct (Request.offersTo goal requests)).take target).map Offer.witness :=
    witnesses_eq_take_distinct target requests goal
  have hLength : held.length ≤ target := by
    rw [hHeld, List.length_map]
    exact List.length_take_le _ _
  refine ⟨hHeld, hLength, ?_, ?_, ?_, ?_, ?_⟩
  · rw [hHeld, List.pairwise_map]
    exact (Offer.pairwise_distinct _).sublist (List.take_sublist _ _)
  · exact fun later => witnesses_prefix_serveAll archive later goal
  · exact fun other => register_witnesses archive other goal
  · intro others hOffers
    rw [hHeld, witnesses_eq_take_distinct, hOffers]
  · intro offer
    obtain ⟨hDuplicate, hFull, hAccepted⟩ := submit_answer_iff archive goal offer
    have hArchive : archive.target = target := serveAll_target _ _
    rw [hArchive] at hFull hAccepted
    refine ⟨hDuplicate, ?_, hAccepted⟩
    rw [hFull, Nat.le_antisymm_iff]
    simp [held, hLength]

/-- A call whose run was observed with the given values. -/
def observedCall (values : List Float) : Offer InputVector :=
  ⟨.single ⟨"f", [1], 0, 9⟩, some ⟨values⟩, 0⟩

/-- What is not a number equals nothing, so an observation of it is accepted twice. That fills the
goal, and then a zero is turned down for want of room and a one because it is held. -/
theorem holds_distinct_offers_not_a_number :
    let goal := Goal.located "g" "unit" "f" 1
    let other := Goal.located "h" "unit" "f" 1
    let one := observedCall [1.0]
    let nothing := observedCall [0.0 / 0.0]
    0 < 3 ∧ ∃ fresh : Archive InputVector, Archive.new 3 = .ok fresh ∧
      let archive := fresh.serveAll [.offer goal one, .offer other one, .register goal,
        .offer goal one, .offer goal nothing, .offer other nothing, .offer goal nothing]
      archive.witnesses goal = [one.witness, nothing.witness, nothing.witness] ∧
      (archive.submit goal (observedCall [-0.0])).1 = .rejected .full ∧
      (archive.submit goal one).1 = .rejected .duplicate := by
  intro goal other one nothing
  obtain ⟨fresh, hNew, hRuns⟩ := holds_distinct_offers (τ := InputVector) (by decide : 0 < 3)
  obtain ⟨hHeld, -, -, -, -, -, hAnswers⟩ := hRuns [.offer goal one, .offer other one,
    .register goal, .offer goal one, .offer goal nothing, .offer other nothing,
    .offer goal nothing] goal
  change _ = [one.witness, nothing.witness, nothing.witness] at hHeld
  refine ⟨by decide, fresh, hNew, hHeld, ?_, ?_⟩
  · rw [(hAnswers _).2.1, hHeld]
    decide
  · rw [(hAnswers _).1, hHeld]
    decide

end Archive

end WitnessSearch
