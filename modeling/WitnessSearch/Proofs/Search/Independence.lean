import WitnessSearch.Proofs.Search.Renewal

/-! A pass deals with its goals one by one, and none of them has a say in what becomes of another.
What is held for a goal in the end is what was held for it before and then the new observations of
the candidates that were offered, in the order of diversity, until the goal is full. The order is
that of its own row alone, and no draw takes part in it. -/

namespace WitnessSearch

variable {ρ τ : Type}

namespace Offer

/-- The offers whose observation equals neither a given one nor that of an earlier such offer. -/
def novel (held : List Observation) : List (Offer τ) → List (Offer τ)
  | [] => []
  | offer :: rest =>
    if held.any (· == offer.value) then novel held rest
    else offer :: novel (held ++ [offer.value]) rest

end Offer

namespace Archive

variable [HasCode τ]

/-- The witnesses of a goal after some offers to it: those held before, and the new ones until the
target is reached. -/
def extended (target : Nat) (held : List (Witness τ)) (offers : List (Offer τ)) :
    List (Witness τ) :=
  held ++ ((Offer.novel (held.map (·.observation)) offers).take (target - held.length)).map
    Offer.witness

/-- The witnesses of a goal after one offer to it. -/
def joined (target : Nat) (held : List (Witness τ)) (offer : Offer τ) : List (Witness τ) :=
  if objection target held offer.witness = none then held ++ [offer.witness] else held

theorem extended_cons (target : Nat) (held : List (Witness τ)) (offer : Offer τ)
    (rest : List (Offer τ)) :
    extended target held (offer :: rest) = extended target (joined target held offer) rest := by
  have hSame : (held.map (·.observation)).any (· == offer.value) =
      held.any (·.observation == offer.witness.observation) := by
    rw [List.any_map]
    rfl
  have hObjection := objection_eq_none_iff target held offer.witness
  unfold joined
  cases hHeld : held.any (·.observation == offer.witness.observation) with
  | true =>
      have hObjected : ¬objection target held offer.witness = none :=
        fun h => Bool.false_ne_true ((hObjection.mp h).1.symm.trans hHeld)
      rw [if_neg hObjected, extended, Offer.novel, hSame, hHeld, if_pos rfl]
      rfl
  | false =>
      rw [extended, Offer.novel, hSame, hHeld, if_neg Bool.false_ne_true]
      by_cases hRoom : held.length < target
      · rw [if_pos (hObjection.mpr ⟨hHeld, hRoom⟩), extended]
        obtain ⟨room, hTarget⟩ := Nat.exists_eq_add_of_lt hRoom
        have hBefore : target - held.length = room + 1 := by omega
        have hAfter : target - (held ++ [offer.witness]).length = room := by
          rw [List.length_append, List.length_singleton]
          omega
        rw [hBefore, hAfter, List.take_succ_cons, List.map_cons, List.map_append]
        simp
      · have hFull : target - held.length = 0 := Nat.sub_eq_zero_of_le (Nat.le_of_not_lt hRoom)
        rw [if_neg fun h => hRoom (hObjection.mp h).2, extended, hFull, List.take_zero,
          List.take_zero]

/-- Offering one after the other is extending by all of them at once, so the witnesses depend on the
offers of their own goal alone. -/
theorem foldl_joined (target : Nat) (held : List (Witness τ)) (offers : List (Offer τ)) :
    offers.foldl (joined target) held = extended target held offers := by
  induction offers generalizing held with
  | nil => simp [extended, Offer.novel]
  | cons offer rest ih => rw [List.foldl_cons, ih, extended_cons]

end Archive

def Attempt.offersFor (goal : Goal) (log : List (Goal × Attempt τ)) : List (Offer τ) :=
  log.filterMap fun entry => if entry.1 = goal then some entry.2.offer else none

theorem Attempt.offersFor_append (goal : Goal) (first later : List (Goal × Attempt τ)) :
    offersFor goal (first ++ later) = offersFor goal first ++ offersFor goal later :=
  List.filterMap_append

namespace Archive.Answers

variable [HasCode τ] {before after : Archive τ} {log : List (Goal × Attempt τ)}

theorem target (h : before.Answers log after) : after.target = before.target := by
  induction h with
  | nothing => rfl
  | offer _ last ih =>
      obtain rfl : _ = _ := congrArg Prod.snd last
      exact (serve_target _ (.offer _ _)).trans ih

/-- The witnesses of a goal depend on the offers for it alone. The induction is on the log from its
end, since an offer is judged by those before it. -/
theorem witnesses (h : before.Answers log after) (goal : Goal) :
    after.witnesses goal = extended before.target (before.witnesses goal)
      (Attempt.offersFor goal log) := by
  rw [← foldl_joined]
  induction h with
  | nothing => rfl
  | @offer log middle after other attempt prior last ih =>
      obtain rfl : _ = after := congrArg Prod.snd last
      rw [submit, offer_witnesses, prior.target, Attempt.offersFor_append, List.foldl_append, ← ih]
      by_cases hGoal : goal = other
      · subst hGoal
        have hLast : Attempt.offersFor goal [(goal, attempt)] = [attempt.offer] := by
          simp [Attempt.offersFor]
        rw [hLast, List.foldl_cons, List.foldl_nil, joined]
        simp only [true_and]
        rfl
      · rw [if_neg fun h => hGoal h.1]
        simp [Attempt.offersFor, Ne.symm hGoal]

end Archive.Answers

namespace Dealing

/-- With one dealing for each goal, the offers for a goal are those of its dealing. -/
theorem offersFor_flatMap_log {dealings : List (Dealing τ)}
    (hGoals : (dealings.map (·.goal)).Nodup) {dealing : Dealing τ} (hMem : dealing ∈ dealings) :
    Attempt.offersFor dealing.goal (dealings.flatMap log) = dealing.attempts.map (·.offer) := by
  have hOwn : Attempt.offersFor dealing.goal dealing.log = dealing.attempts.map (·.offer) := by
    simp [Attempt.offersFor, log, List.filterMap_map]
  have hOther : ∀ other : Dealing τ, other.goal ≠ dealing.goal →
      Attempt.offersFor dealing.goal other.log = [] := by
    intro other hGoal
    simp [Attempt.offersFor, log, hGoal]
  have hNone : ∀ others : List (Dealing τ), dealing.goal ∉ others.map (·.goal) →
      Attempt.offersFor dealing.goal (others.flatMap log) = [] := by
    intro others hFresh
    unfold Attempt.offersFor
    rw [List.filterMap_flatMap, List.flatMap_eq_nil_iff]
    exact fun other hIn => hOther other fun hGoal =>
      hFresh (hGoal ▸ List.mem_map_of_mem hIn)
  obtain ⟨first, last, rfl⟩ := List.append_of_mem hMem
  rw [List.map_append, List.map_cons, List.nodup_append'] at hGoals
  obtain ⟨-, hLast, hApart⟩ := hGoals
  rw [List.flatMap_append, List.flatMap_cons, Attempt.offersFor_append, Attempt.offersFor_append,
    hOwn, hNone first fun hIn => hApart hIn List.mem_cons_self,
    hNone last (List.nodup_cons.mp hLast).1, List.nil_append, List.append_nil]

def accepted (dealing : Dealing τ) : Nat :=
  dealing.attempts.countP fun attempt => attempt.answer matches .accepted _

variable [RandomSource ρ] [Variation ρ τ] {dealing : Dealing τ}

/-- Nothing came back exactly of the accepted offers. -/
theorem accepted_eq (h : ∀ attempt ∈ dealing.attempts, attempt.Fair ρ) :
    dealing.induction.accepted = dealing.accepted := by
  apply List.countP_congr
  intro attempt hMem
  have hFair := h attempt hMem
  unfold Attempt.Fair at hFair
  split at hFair
  · rename_i hAnswer
    simp [hAnswer, hFair]
  · rename_i hAnswer
    obtain ⟨_, _, mutant, -, hBack⟩ := hFair
    simp [hAnswer, hBack]

/-- What is not accepted is used again. -/
theorem accepted_add_length_recycled (h : ∀ attempt ∈ dealing.attempts, attempt.Fair ρ) :
    dealing.accepted + dealing.recycled.length =
      dealing.attempts.length + dealing.withheld.length := by
  have hBack : (dealing.attempts.filterMap (·.back)).length =
      dealing.attempts.countP fun attempt => ¬attempt.back.isNone := by
    rw [List.length_filterMap_eq_countP]
    apply List.countP_congr
    simp [Option.isSome_iff_ne_none]
  have hAll := dealing.attempts.length_eq_countP_add_countP (·.back.isNone)
  rw [← accepted_eq h, recycled, List.length_append, hBack, hAll, induction]
  exact (Nat.add_assoc _ _ _).symm

/-- All candidates that meet the goal are accounted for. -/
theorem Handles.length_filter {fraction : Float} {generation : Nat} {goal : Goal}
    {row : List (Evaluated τ)} (h : dealing.Handles ρ fraction generation goal row) :
    (row.filter (·.isCovered)).length = dealing.accepted + dealing.recycled.length := by
  have hParted := h.settles.parted.length_eq
  rw [List.length_append, List.length_map, List.length_map] at hParted
  rw [← hParted, accepted_add_length_recycled h.fair]

/-- Every candidate that covers its goal is offered, and is either accepted or recycled. -/
theorem sum_accepted_add_length_recycled {fraction : Float} {generation : Nat}
    {entries : List (Goal × List (Evaluated τ))} {dealings : List (Dealing τ)}
    (h : List.Forall₂ (fun entry dealing => dealing.Handles ρ fraction generation entry.1 entry.2)
      entries dealings) :
    (dealings.map accepted).sum + (dealings.flatMap recycled).length =
      (entries.map fun entry => (entry.2.filter (·.isCovered)).length).sum := by
  rw [List.length_flatMap, ← List.sum_map_add]
  exact congrArg List.sum (map_eq_map_of_related (h.imp fun _ _ h => h.length_filter.symm))

end Dealing

namespace Search

variable [HasCode τ] [RandomSource ρ] [Variation ρ τ] {problem : Problem ρ τ}

/-- What is held for a goal once the candidates of some rows were dealt with depends on its own
row, and on nothing else that the other goals or the source have brought about. -/
theorem witnesses_of_inductions {entries : List (Goal × List (Evaluated τ))}
    {inductions : List (Induction τ)} {origin later : Search ρ τ}
    (hGoals : (entries.map (·.1)).Nodup)
    (hBound : ∀ entry ∈ entries, ∀ candidate ∈ entry.2, candidate.goal = entry.1)
    (h : entries.mapM (fun entry => induct problem entry.1 entry.2) origin = .ok inductions later)
    {goal : Goal} {row : List (Evaluated τ)} (hMem : (goal, row) ∈ entries) :
    ∃ candidates, Diversity.Arranges goal (row.filter (·.isCovered)) candidates ∧
      later.archive.witnesses goal =
        Archive.extended origin.archive.target (origin.archive.witnesses goal)
          ((candidates.take (share origin.config.archiveFraction candidates.length)).map
            (Offer.ofEvaluated origin.generation)) := by
  obtain ⟨dealings, -, hHandles, hOffering⟩ :=
    ensures_inductions_offering hBound (Offering.refl _) h
  obtain ⟨dealing, hDealing, hHandled⟩ := exists_right_of_related hHandles hMem
  obtain rfl : dealing.goal = goal := hHandled.goal_eq
  obtain ⟨candidates, hArranged, hOffers, -⟩ := hHandled.arranged
  rw [← map_eq_map_of_related (g := (·.goal)) (hHandles.imp fun _ _ h => h.goal_eq)] at hGoals
  refine ⟨candidates, hArranged, ?_⟩
  rw [hOffering.answers.witnesses, Dealing.offersFor_flatMap_log hGoals hDealing, hOffers]

/-- What a pass does with the candidates that meet the goals which are open when it begins. -/
structure Stages.Deals (stages : Stages ρ τ) (candidates : List (Chromosome τ))
    (before : Search ρ τ) (dealings : List (Dealing τ)) (after : Search ρ τ) : Prop where
  /-- The candidates of a row that meet its goal, in the order of the batch. -/
  covering : List.Forall₂ (fun goal row => (row.filter (·.isCovered)).map (·.chromosome) =
    candidates.filter (after.evaluator.meets · goal)) before.remaining stages.rows
  /-- Each of them was either offered, among the first in the order of diversity, or withheld. -/
  handled : List.Forall₂ (fun entry dealing => dealing.Handles ρ before.config.archiveFraction
    before.generation entry.1 entry.2) (before.remaining.zip stages.rows) dealings
  answers : before.archive.Answers (dealings.flatMap Dealing.log) after.archive
  /-- The witnesses of a goal are the earlier ones and the offers with a new observation, until the
  goal is full. -/
  held : ∀ dealing ∈ dealings, after.archive.witnesses dealing.goal =
    Archive.extended before.archive.target (before.archive.witnesses dealing.goal)
      (dealing.attempts.map (·.offer))
  /-- With other rows for the other goals, in another order and from another source, the witnesses
  of a goal come out the same. -/
  independent : ∀ entry ∈ before.remaining.zip stages.rows,
    ∀ (problem : Problem ρ τ) (entries : List (Goal × List (Evaluated τ)))
      (inductions : List (Induction τ)) (origin later : Search ρ τ),
      entry ∈ entries → (entries.map (·.1)).Nodup →
      (∀ other ∈ entries, ∀ candidate ∈ other.2, candidate.goal = other.1) →
      origin.config.archiveFraction = before.config.archiveFraction →
      origin.generation = before.generation →
      origin.archive.target = before.archive.target →
      origin.archive.witnesses entry.1 = before.archive.witnesses entry.1 →
      entries.mapM (fun other => induct problem other.1 other.2) origin = .ok inductions later →
      later.archive.witnesses entry.1 = after.archive.witnesses entry.1
  recycled : stages.recycled = dealings.flatMap Dealing.recycled
  recorded : after.history.accepted =
    before.history.accepted ++ [(dealings.map Dealing.accepted).sum]
  /-- The candidates that are accepted and those used again make up all that meet a goal, counted
  once for each goal they meet. -/
  balanced : (dealings.map Dealing.accepted).sum + stages.recycled.length =
    (before.remaining.map fun goal =>
      (candidates.filter (after.evaluator.meets · goal)).length).sum
  /-- The candidates that meet no goal are ranked, and they only. -/
  pooled : (stages.pool before.remaining candidates).map (·.chromosome) =
    candidates.filter fun chromosome =>
      before.remaining.all fun goal => !after.evaluator.meets chromosome goal

namespace Stages.Lead

variable {candidates next : List (Chromosome τ)} {before after : Search ρ τ} {stages : Stages ρ τ}

/-- The witnesses of a goal after the pass, from its row and those it had before. -/
theorem exists_arranged (h : stages.Lead problem candidates before next after)
    (hGoals : before.remaining.Nodup) {goal : Goal} {row : List (Evaluated τ)}
    (hMem : (goal, row) ∈ before.remaining.zip stages.rows) :
    ∃ candidates, Diversity.Arranges goal (row.filter (·.isCovered)) candidates ∧
      after.archive.witnesses goal =
        Archive.extended before.archive.target (before.archive.witnesses goal)
          ((candidates.take (share before.config.archiveFraction candidates.length)).map
            (Offer.ofEvaluated before.generation)) := by
  have hArchive : after.archive = stages.offered.archive := congrArg (·.archive) (h.after_eq hGoals)
  have hFirst : (before.remaining.zip stages.rows).map Prod.fst = before.remaining :=
    List.map_fst_zip (h.judged hGoals).1.length_eq.le
  rw [hArchive]
  exact witnesses_of_inductions (hFirst.symm ▸ hGoals) (h.bound hGoals) h.offers hMem

/-- The history books the sum over the goals, as one entry. -/
theorem accepted_eq (h : stages.Lead problem candidates before next after)
    (hGoals : before.remaining.Nodup) : after.history.accepted =
      before.history.accepted ++ [(stages.inductions.map (·.accepted)).sum] := by
  have hHistory : stages.topped.history = before.history := by
    rw [h.exists_fresh.1.aside, h.offered_eq hGoals]
  cases h.recorded
  dsimp only
  rw [hHistory, acceptedBy, List.sum_eq_foldl, List.foldl_map]

/-- The candidates that meet the goals in their rows are those that do so on record. -/
theorem sum_length_filter_isCovered (h : stages.Lead problem candidates before next after)
    (hGoals : before.remaining.Nodup) :
    ((before.remaining.zip stages.rows).map fun entry =>
        (entry.2.filter (·.isCovered)).length).sum =
      (before.remaining.map fun goal =>
        (candidates.filter (after.evaluator.meets · goal)).length).sum := by
  have hRows := h.records hGoals
  have hLast : (before.remaining.zip stages.rows).map Prod.snd = stages.rows :=
    List.map_snd_zip hRows.length_eq.ge
  calc ((before.remaining.zip stages.rows).map fun entry =>
          (entry.2.filter (·.isCovered)).length).sum
      = (stages.rows.map fun row => (row.filter (·.isCovered)).length).sum := by
        nth_rewrite 2 [← hLast]
        rw [List.map_map]
        rfl
    _ = (before.remaining.map fun goal =>
          (candidates.filter (after.evaluator.meets · goal)).length).sum :=
        congrArg List.sum <| map_eq_map_of_related <| hRows.imp fun goal row hRow => by
          rw [← Evaluator.map_filter_isCovered hRow, List.length_map]

end Stages.Lead

/-- Whatever leads through a pass consists of one dealing for each goal. -/
theorem deals_of_lead {candidates next : List (Chromosome τ)} {before after : Search ρ τ}
    {stages : Stages ρ τ} (h : stages.Lead problem candidates before next after)
    (hGoals : before.remaining.Nodup) :
    ∃ dealings, stages.Deals candidates before dealings after := by
  obtain ⟨dealings, hInductions, hSame, hHandles, hOffering⟩ := h.exists_dealings hGoals
  have hRows := h.records hGoals
  have hArchive : after.archive = stages.offered.archive := congrArg (·.archive) (h.after_eq hGoals)
  have hDistinct : (dealings.map (·.goal)).Nodup := hSame.symm ▸ hGoals
  have hRecycled : stages.recycled = dealings.flatMap Dealing.recycled := by
    rw [Stages.recycled, ← hInductions, List.flatMap_map]
    rfl
  have hAccepted : dealings.map (·.induction.accepted) = dealings.map Dealing.accepted := by
    refine List.map_congr_left fun dealing hMem => ?_
    obtain ⟨_, -, hHandled⟩ := exists_left_of_related hHandles hMem
    exact Dealing.accepted_eq hHandled.fair
  refine ⟨dealings, {
    covering := hRows.imp fun _ _ hRow => Evaluator.map_filter_isCovered hRow
    handled := hHandles
    answers := hArchive ▸ hOffering.answers
    held := ?held
    independent := ?independent
    recycled := hRecycled
    recorded := ?recorded
    balanced := ?balanced
    pooled := map_chromosome_contenders _ hRows }⟩
  case held =>
    intro dealing hMem
    have hWitnesses := hOffering.answers.witnesses dealing.goal
    rw [Dealing.offersFor_flatMap_log hDistinct hMem] at hWitnesses
    rw [hArchive]
    exact hWitnesses
  case independent =>
    intro entry hMem _ entries inductions origin later hIn hOthers hBound hFraction hGeneration
      hTarget hHeld hRun
    obtain ⟨arranged, hArranged, hLater⟩ := witnesses_of_inductions hOthers hBound hRun hIn
    obtain ⟨candidates, hCandidates, hAfter⟩ := h.exists_arranged hGoals hMem
    obtain rfl := hArranged.unique hCandidates
    rw [hLater, hAfter, hFraction, hGeneration, hTarget, hHeld]
  case recorded =>
    rw [h.accepted_eq hGoals, ← hInductions, List.map_map, ← hAccepted]
    rfl
  case balanced =>
    rw [hRecycled, Dealing.sum_accepted_add_length_recycled hHandles]
    exact h.sum_length_filter_isCovered hGoals

/-- Each goal is dealt with by itself. In any pass of a search, the candidates that meet a goal are
put into the order of diversity, and a share of them is offered. What is held for the goal is
extended by the offers with a new observation, until it has reached its target. This depends on the
row of the goal and on what it held before, and neither on the other goals and their order nor on
the source. Each candidate that meets a goal is accepted for it, or mutated and used again, or
withheld and used again as it was, so that none is lost and none is used twice, and the candidates
that meet no goal are those that are ranked. -/
theorem pass_deals_goal_by_goal (config : Config) (source : ρ) (goals : List Goal)
    {initial search before after : Search ρ τ} {call : Call τ}
    {candidates next : List (Chromosome τ)}
    (hNew : Search.new config source goals = .ok initial)
    (hSearch : Reachable problem initial search)
    (hPasses : call.Passes problem search candidates before) (hOpen : before.remaining ≠ [])
    (hRun : pass problem candidates before = .ok next after) :
    before.config = config ∧ before.archive.target = config.multicoverTarget ∧
      ∃ (stages : Stages ρ τ) (dealings : List (Dealing τ)),
        stages.Lead problem candidates before next after ∧
          stages.Deals candidates before dealings after := by
  obtain ⟨hConfig, hTarget, hGoals⟩ := hPasses.setting hNew hSearch
  obtain ⟨stages, hLead⟩ := ensures_stages hOpen rfl hRun
  obtain ⟨dealings, hDeals⟩ := deals_of_lead hLead hGoals
  exact ⟨hConfig, hTarget, stages, dealings, hLead, hDeals⟩

/-- In the first pass of the trial the call that meets the goal becomes its witness, and the other
call is ranked. -/
theorem pass_deals_goal_by_goal_trial :
    ∃ (candidates next : List (Chromosome InputVector)) (before after : Search Replay InputVector),
      Search.new trialConfig (.start [0, 1] 0) [trialGoal] = .ok trial ∧
      Reachable trialProblem trial trial ∧
      Call.start.Passes trialProblem trial candidates before ∧
      before.remaining ≠ [] ∧
      pass trialProblem candidates before = .ok next after ∧
      after.archive.witnesses trialGoal = [Archive.offered (trialCall "f") none 0] ∧
      before.config = trialConfig ∧ before.archive.target = 1 ∧
      ∃ (stages : Stages Replay InputVector) (dealings : List (Dealing InputVector)),
        stages.Lead trialProblem candidates before next after ∧
          stages.Deals candidates before dealings after := by
  obtain ⟨candidates, before, next, after, hPasses, hOpen, hPass, hHeld⟩ := exists_trial_pass
  have hNew : Search.new trialConfig (.start [0, 1] 0) [trialGoal] = .ok trial := rfl
  exact ⟨candidates, next, before, after, hNew, .initial, hPasses, hOpen, hPass, hHeld,
    pass_deals_goal_by_goal trialConfig (.start [0, 1] 0) [trialGoal] hNew .initial hPasses hOpen
      hPass⟩

end Search

end WitnessSearch
