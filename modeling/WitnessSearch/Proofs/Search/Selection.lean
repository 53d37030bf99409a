import Mathlib.Algebra.Order.Ring.Nat
import Mathlib.Tactic.Ring
import WitnessSearch.Proofs.Random.Uniform
import WitnessSearch.Proofs.Ranking.Preference
import WitnessSearch.Proofs.Ranking.Sorting
import WitnessSearch.Proofs.Search.Breeding
import WitnessSearch.Random.Replay

/-! The bias in the selection of parents. Selection by rank gives the best candidate as many of the
outcomes of its draw as there are candidates, the next one less each time and the worst a single
one. A tournament is won by the best of the candidates drawn for it, the earliest of them if there
are several. -/

namespace WitnessSearch.Search

open Draw

section Walk

def tickets : List Nat → List Nat
  | [] => []
  | i :: rest => List.replicate (rest.length + 1) i ++ tickets rest

theorem two_mul_length_tickets (order : List Nat) :
    2 * (tickets order).length = order.length * (order.length + 1) := by
  induction order with
  | nil => rfl
  | cons i rest ih =>
      simp only [tickets, List.length_append, List.length_replicate, List.length_cons, Nat.mul_add,
        ih]
      ring

/-- There are as many tickets as the sum of the weights. -/
theorem length_tickets (order : List Nat) :
    (tickets order).length = order.length * (order.length + 1) / 2 := by
  have hTwice := two_mul_length_tickets order
  omega

/-- To walk along the weights is to look up a ticket. -/
theorem atWeight_eq (fallback target : Nat) (order : List Nat) :
    atWeight fallback target order = (tickets order).getD target fallback := by
  induction order generalizing target with
  | nil => simp [atWeight, tickets]
  | cons i rest ih =>
      rw [atWeight, tickets]
      split
      · rename_i hHere
        rw [List.getD_append _ _ _ _ (by simpa using hHere), List.getD_replicate _ hHere]
      · rename_i hBehind
        rw [List.getD_append_right _ _ _ _ (by simpa using hBehind), List.length_replicate, ih]

/-- No target is left over for the fallback. -/
theorem atWeight_congr {target : Nat} {order : List Nat}
    (h : target < order.length * (order.length + 1) / 2) (fallback other : Nat) :
    atWeight fallback target order = atWeight other target order := by
  rw [← length_tickets] at h
  rw [atWeight_eq, atWeight_eq, List.getD_eq_getElem _ _ h, List.getD_eq_getElem _ _ h]

/-- All tickets are drawn. -/
theorem map_atWeight (fallback : Nat) (order : List Nat) :
    (List.range (order.length * (order.length + 1) / 2)).map (atWeight fallback · order) =
      tickets order := by
  rw [← length_tickets]
  refine List.ext_getElem (by simp) fun target hTarget hTicket => ?_
  rw [List.getElem_map, List.getElem_range, atWeight_eq, List.getD_eq_getElem _ _ hTicket]

theorem mem_tickets {order : List Nat} {i : Nat} : i ∈ tickets order ↔ i ∈ order := by
  induction order with
  | nil => rfl
  | cons first rest ih => simp [tickets, ih]

/-- A member that is there once has as many tickets as there are members from it on. -/
theorem count_tickets {order : List Nat} (hNodup : order.Nodup) {p i : Nat}
    (h : order[p]? = some i) : (tickets order).count i = order.length - p := by
  induction order generalizing p with
  | nil => cases h
  | cons first rest ih =>
      obtain ⟨hFirst, hRest⟩ := List.nodup_cons.mp hNodup
      rw [tickets, List.count_append, List.count_replicate]
      cases p with
      | zero =>
          obtain rfl : first = i := by simpa using h
          have hNoMore : (tickets rest).count first = 0 :=
            List.count_eq_zero.mpr (mem_tickets.not.mpr hFirst)
          simp [hNoMore]
      | succ p =>
          have hLater : rest[p]? = some i := by simpa using h
          have hOther : first ≠ i := by
            rintro rfl
            exact hFirst (List.mem_of_getElem? hLater)
          simp [hOther, ih hRest hLater]

end Walk

section Rank

/-- The number of outcomes of the draw that selects one of `size` candidates by rank. -/
def outcomes (size : Nat) : Nat :=
  size * (size + 1) / 2

def chances (choose : Nat → Nat) (size i : Nat) : Nat :=
  ((List.range (outcomes size)).map choose).count i

variable {scores : Array Float}

def scoresLess (scores : Array Float) (i j : Nat) : Bool :=
  decide (scores.getD i 0.0 < scores.getD j 0.0)

/-- The candidates in the stable ascending order of their scores. -/
structure IsRanking (scores : Array Float) (order : List Nat) : Prop where
  perm : order.Perm (List.range scores.size)
  stable : order.Pairwise (Precedes (scoresLess scores) (· < ·))

namespace IsRanking

variable {order : List Nat} (h : IsRanking scores order)
include h

theorem length_eq : order.length = scores.size := by
  simpa using h.perm.length_eq

theorem nodup : order.Nodup :=
  h.perm.nodup_iff.mpr List.nodup_range

theorem exists_place {i : Nat} (hi : i < scores.size) : ∃ p : Nat, order[p]? = some i :=
  List.mem_iff_getElem?.mp (h.perm.mem_iff.mpr (List.mem_range.mpr hi))

/-- The outcomes that lead to a candidate are as many as the candidates from its place on. -/
theorem chances_atWeight (fallback : Nat) {p i : Nat} (hp : order[p]? = some i) :
    chances (atWeight fallback · order) scores.size i = scores.size - p := by
  rw [chances, outcomes, ← h.length_eq, map_atWeight, count_tickets h.nodup hp]

end IsRanking

variable (hNumbers : ∀ score ∈ scores, score.isNaN = false)
include hNumbers

theorem isNaN_score (i : Nat) : (scores.getD i 0.0).isNaN = false := by
  rw [Array.getD_eq_getD_getElem?]
  cases hScore : scores[i]? with
  | none => decide
  | some score => exact hNumbers score (Array.mem_of_getElem? hScore)

/-- Scores that are numbers can be ranked. -/
theorem exists_ranking : ∃ order, byScore scores = .ok order ∧ IsRanking scores order := by
  have hOrder : IsWeakOrder (scoresLess scores) := isWeakOrder_keys (isNaN_score hNumbers)
  refine ⟨_, sortByKey_of_numeric _ _ _ fun i _ => isNaN_score hNumbers i, ?_, ?_⟩
  · exact perm_stableSort _ _
  · exact pairwise_stableSort hOrder List.pairwise_lt_range

/-- A lower score comes earlier. -/
theorem IsRanking.place_lt {order : List Nat} (h : IsRanking scores order) {p q i j : Nat}
    (hp : order[p]? = some i) (hq : order[q]? = some j)
    (hLess : scores.getD i 0.0 < scores.getD j 0.0) : p < q := by
  by_contra hNot
  have hAsymm := FloatOrder.lt_asymm (isNaN_score hNumbers i) (isNaN_score hNumbers j) hLess
  rcases Nat.lt_or_eq_of_le (Nat.le_of_not_lt hNot) with hBefore | rfl
  · obtain ⟨hpLess, rfl⟩ := List.getElem?_eq_some_iff.mp hp
    obtain ⟨hqLess, rfl⟩ := List.getElem?_eq_some_iff.mp hq
    rcases List.pairwise_iff_getElem.mp h.stable q p hqLess hpLess hBefore with hUp | ⟨hNoUp, -⟩
    · exact hAsymm (of_decide_eq_true hUp)
    · exact of_decide_eq_false hNoUp hLess
  · obtain rfl : i = j := Option.some.inj (hp.symm.trans hq)
    exact FloatOrder.lt_irrefl (isNaN_score hNumbers i) hLess

end Rank

section Tournament

variable {ρ : Type} [RandomSource ρ] {scores : Array Float}

/-- The better of two candidates. The first one is kept unless the second one is better. -/
def better (scores : Array Float) (best contestant : Nat) : Nat :=
  if scores.getD contestant 0.0 < scores.getD best 0.0 then contestant else best

/-- The candidate that is left when each is compared with the best of those before it. -/
def winner (scores : Array Float) : List Nat → Nat
  | [] => 0
  | first :: rest => rest.foldl (better scores) first

def indices (count size : Nat) : Draw ρ (List Nat) :=
  (List.replicate count ()).mapM fun _ => Draw.index size

/-- Several indices are drawn as one and then the others. -/
theorem indices_succ (count size : Nat) :
    (indices (count + 1) size : Draw ρ (List Nat)) =
      Draw.index size >>= fun first => (first :: ·) <$> indices count size := by
  simp [indices, List.replicate_succ, List.mapM_cons]

omit [RandomSource ρ] in
theorem fetch_score {i : Nat} (hi : i < scores.size) :
    (ofExcept (Checked.fetch scores i) : Draw ρ Float) = pure (scores.getD i 0.0) := by
  rw [Checked.fetch, Array.getElem?_eq_getElem hi, Array.getD_eq_getD_getElem?,
    Array.getElem?_eq_getElem hi]
  rfl

/-- A tournament draws its contestants first and compares them then. Drawing and comparing in turns
comes to the same. -/
theorem tournament_eq (hSome : 0 < scores.size) (rounds : Nat) {best : Nat}
    (hBest : best < scores.size) :
    (tournament scores rounds best : Draw ρ Nat) =
      (·.foldl (better scores) best) <$> indices rounds scores.size := by
  induction rounds generalizing best with
  | zero => rfl
  | succ rounds ih =>
      have hDraw : Yields (fun _ => True) (Draw.index scores.size : Draw ρ Nat)
          (· < scores.size) := yields_index trivial hSome
      rw [tournament, indices_succ, map_bind]
      refine hDraw.bind_congr fun contestant hContestant => ?_
      have hBetter : better scores best contestant < scores.size := by
        unfold better
        rcases ite_eq_or_eq (scores.getD contestant 0.0 < scores.getD best 0.0) contestant best with
          hSame | hSame <;> rwa [hSame]
      rw [fetch_score hContestant, fetch_score hBest, pure_bind, pure_bind]
      exact (ih hBetter).trans (by simp)

/-- Selection by tournament answers with the winner among the indices that were drawn. -/
theorem selectIndex_tournament (hSome : 0 < scores.size) {size : Nat} (hSize : 1 ≤ size) :
    (selectIndex (.tournament size) scores : Draw ρ Nat) =
      winner scores <$> indices size scores.size := by
  obtain ⟨rounds, rfl⟩ := Nat.exists_eq_add_of_le' hSize
  have hDraw : Yields (fun _ => True) (Draw.index scores.size : Draw ρ Nat)
      (· < scores.size) := yields_index trivial hSome
  rw [indices_succ, map_bind]
  refine hDraw.bind_congr fun first hFirst => ?_
  exact (tournament_eq hSome rounds hFirst).trans (by simp [winner])

/-- A tournament is won by the first drawn of the candidates with the lowest score. -/
theorem isFirstLeast_winner (hNumbers : ∀ score ∈ scores, score.isNaN = false) {drawn : List Nat}
    (hDrawn : drawn ≠ []) :
    ∃ k : Nat, Fronts.IsFirstLeast (drawn.map (scores.getD · 0.0)) k ∧
      drawn[k]? = some (winner scores drawn) := by
  obtain ⟨first, rest, rfl⟩ := List.exists_cons_of_ne_nil hDrawn
  have hFirst : Fronts.IsFirstLeast ([first].map (scores.getD · 0.0)) 0 :=
    Fronts.isFirstLeast_singleton (isNaN_score hNumbers first)
  exact Fronts.isFirstLeast_foldl hFirst rfl fun i _ => isNaN_score hNumbers i

end Tournament

section Bias

variable {ρ : Type} [RandomSource ρ] {scores : Array Float}

/-- Selection by rank draws one of the weights uniformly and answers with the index that holds it,
provided that the product of the weights fits. -/
theorem selectIndex_rankBased {order : List Nat} (h : byScore scores = .ok order)
    (hFits : scores.size * (scores.size + 1) < Checked.countLimit) :
    (selectIndex .rankBased scores : Draw ρ Nat) =
      (atWeight (order.headD 0) · order) <$> Draw.index (outcomes scores.size) := by
  simp only [selectIndex, h, Checked.mulCounts_eq_ok_iff.mpr ⟨hFits, rfl⟩]
  rfl

/-- Selection by rank looks at one fair draw. The walk along the weights never gets to its end, and
of the outcomes one for each candidate from a place on lead to the candidate at the place, in the
stable ascending order of the scores. So every candidate can be selected, and none with a lower
score is selected by fewer outcomes. A tournament is won by the first drawn of the candidates with
the lowest score. Whatever the method is, it selects one of the candidates, provided that the draws
come to an end. -/
theorem selection_prefers_low_scores (hSome : 0 < scores.size)
    (hNumbers : ∀ score ∈ scores, score.isNaN = false)
    (hFits : scores.size * (scores.size + 1) < Checked.countLimit) :
    (∃ (order : List Nat) (choose : Nat → Nat), IsRanking scores order ∧
      (selectIndex .rankBased scores : Draw ρ Nat) =
        choose <$> Draw.index (outcomes scores.size) ∧
      Draw.Fair ρ (outcomes scores.size) ∧
      (∀ fallback, ∀ target < outcomes scores.size,
        atWeight fallback target order = choose target) ∧
      (∀ p i : Nat, order[p]? = some i → chances choose scores.size i = scores.size - p) ∧
      (∀ i < scores.size, 0 < chances choose scores.size i) ∧
      ∀ i < scores.size, ∀ j < scores.size, scores.getD i 0.0 < scores.getD j 0.0 →
        chances choose scores.size j ≤ chances choose scores.size i) ∧
    (∀ size, 1 ≤ size →
      (selectIndex (.tournament size) scores : Draw ρ Nat) =
        winner scores <$> indices size scores.size ∧
      ∀ drawn : List Nat, drawn ≠ [] →
        ∃ k : Nat, Fronts.IsFirstLeast (drawn.map (scores.getD · 0.0)) k ∧
          drawn[k]? = some (winner scores drawn)) ∧
    ∀ (method : SelectionMethod) (source : ρ),
      (∃ i final, selectIndex method scores source = .ok i final ∧ i < scores.size) ∨
        ∃ final, selectIndex method scores source = .error .endlessRejection final := by
  obtain ⟨order, hOrder, hRanking⟩ := exists_ranking hNumbers
  have hPositive : 0 < outcomes scores.size := Nat.div_pos (by nlinarith) Nat.two_pos
  have hSmall : outcomes scores.size < UInt64.size := (Nat.div_le_self _ 2).trans_lt hFits
  have hChances : ∀ p i : Nat, order[p]? = some i →
      chances (atWeight (order.headD 0) · order) scores.size i = scores.size - p :=
    fun p i hp => hRanking.chances_atWeight _ hp
  refine ⟨⟨order, (atWeight (order.headD 0) · order), hRanking, selectIndex_rankBased hOrder hFits,
    fair_index hPositive hSmall, ?_, hChances, ?_, ?_⟩, ?_, ?_⟩
  · intro fallback target hTarget
    rw [outcomes, ← hRanking.length_eq] at hTarget
    exact atWeight_congr hTarget _ _
  · intro i hi
    obtain ⟨p, hp⟩ := hRanking.exists_place hi
    have hPlace : p < order.length := (List.getElem?_eq_some_iff.mp hp).1
    rw [hChances p i hp, ← hRanking.length_eq]
    exact Nat.sub_pos_of_lt hPlace
  · intro i hi j hj hLess
    obtain ⟨p, hp⟩ := hRanking.exists_place hi
    obtain ⟨q, hq⟩ := hRanking.exists_place hj
    have hBefore := hRanking.place_lt hNumbers hp hq hLess
    rw [hChances p i hp, hChances q j hq]
    omega
  · intro size hSize
    exact ⟨selectIndex_tournament hSome hSize, fun drawn hDrawn =>
      isFirstLeast_winner hNumbers hDrawn⟩
  · intro method source
    have hYields : Yields (· = .endlessRejection) (selectIndex method scores : Draw ρ Nat)
        (· < scores.size) := yields_selectIndex (by rfl) hSome hNumbers method fun _ => .inl hFits
    cases hRun : selectIndex method scores source with
    | ok i final => exact .inl ⟨i, final, rfl, (hYields.answer trivial hRun).1⟩
    | error fault final =>
        obtain rfl := hYields.fault trivial hRun
        exact .inr ⟨final, rfl⟩

/-- Three scores that are neither in order nor alike. -/
def mixedScores : Array Float :=
  #[5.0, 0.5, 9.0]

/-- Of six outcomes three select the candidate with the lowest score, two the next one and one the
last. -/
theorem selection_prefers_low_scores_mixed :
    0 < mixedScores.size ∧ (∀ score ∈ mixedScores, score.isNaN = false) ∧
      mixedScores.size * (mixedScores.size + 1) < Checked.countLimit ∧
      ∃ choose : Nat → Nat,
        (selectIndex .rankBased mixedScores : Draw Replay Nat) = choose <$> Draw.index 6 ∧
        chances choose 3 1 = 3 ∧ chances choose 3 0 = 2 ∧ chances choose 3 2 = 1 := by
  have hNumbers : ∀ score ∈ mixedScores, score.isNaN = false := by decide +kernel
  obtain ⟨⟨order, choose, hRanking, hSelect, -, -, hChances, -⟩, -⟩ :=
    @selection_prefers_low_scores Replay _ mixedScores (by decide) hNumbers (by decide)
  obtain ⟨p, hp⟩ := hRanking.exists_place (by decide : 1 < mixedScores.size)
  obtain ⟨q, hq⟩ := hRanking.exists_place (by decide : 0 < mixedScores.size)
  obtain ⟨r, hr⟩ := hRanking.exists_place (by decide : 2 < mixedScores.size)
  have hFirst : p < q := hRanking.place_lt hNumbers hp hq (by decide +kernel)
  have hSecond : q < r := hRanking.place_lt hNumbers hq hr (by decide +kernel)
  have hThird : r < 3 := by
    have hPlace := (List.getElem?_eq_some_iff.mp hr).1
    rwa [hRanking.length_eq] at hPlace
  obtain ⟨rfl, rfl, rfl⟩ : p = 0 ∧ q = 1 ∧ r = 2 := by omega
  exact ⟨by decide, hNumbers, by decide, choose, hSelect, hChances 0 1 hp, hChances 1 0 hq,
    hChances 2 2 hr⟩

end Bias

end WitnessSearch.Search
