import WitnessSearch.Proofs.Evaluation.Accounting
import WitnessSearch.Proofs.Search.Pass

/-! What a generation adds up to. The offers of a pass lead from the archive it found to the one it
leaves, and what it writes down is the number of those that were accepted. All the while the
evaluator is thrifty, since the goals it is asked for are distinct. -/

namespace WitnessSearch.Search

variable {ρ τ : Type}

/-- The history has so many entries. They add up, and they lead to what the search holds now. -/
structure Balanced (search : Search ρ τ) (entries : Nat) : Prop where
  remainingGoals : search.history.remainingGoals.length = entries
  archiveSize : search.history.archiveSize.length = entries
  cacheEntries : search.history.cacheEntries.length = entries
  accepted : search.history.accepted.length = entries
  falls : (search.history.remainingGoals ++ [search.remaining.length]).Pairwise (· ≥ ·)
  rises : (search.history.cacheEntries ++ [search.evaluator.memo.size]).Pairwise (· ≤ ·)
  sums : ∀ i < entries,
    search.history.archiveSize[i]? = some (search.history.accepted.take (i + 1)).sum
  total : search.archive.size = search.history.accepted.sum

theorem pairwise_append_twice {related : Nat → Nat → Prop} {xs : List Nat} {x y : Nat}
    (h : (xs ++ [x]).Pairwise related) (hLater : ∀ z, related z x → related z y)
    (hSelf : related y y) : ((xs ++ [y]) ++ [y]).Pairwise related := by
  obtain ⟨hEarlier, -, hLast⟩ := List.pairwise_append.mp h
  have hAll : ∀ z ∈ xs, related z y := fun z hz => hLater z (hLast z hz x List.mem_cons_self)
  simp only [List.pairwise_append, List.mem_append, List.mem_singleton, List.pairwise_singleton]
  refine ⟨⟨hEarlier, trivial, ?_⟩, trivial, ?_⟩
  · rintro z hz _ rfl
    exact hAll z hz
  · rintro z hz _ rfl
    rcases hz with hz | rfl
    · exact hAll z hz
    · exact hSelf

variable [HasCode τ]

/-- A search in the middle of a generation, with the given open goals. So many offers have been
accepted since the generation began. -/
structure Midway (before : Search ρ τ) (accepted : Nat) (goals : List Goal)
    (search : Search ρ τ) : Prop where
  config : search.config = before.config
  cancelled : search.cancelled = before.cancelled
  generation : search.generation = before.generation
  history : search.history = before.history
  remaining : search.remaining = goals
  runs : before.evaluator.Thrifty search.evaluator
  takes : before.archive.Takes accepted search.archive

/-- One generation leads from one search to the other, and the history says what it came to. -/
structure Advances (before : Search ρ τ) (generation : Nat) (after : Search ρ τ) : Prop where
  config : after.config = before.config
  cancelled : after.cancelled = before.cancelled
  generation : after.generation = generation
  narrows : after.remaining.Sublist before.remaining
  runs : before.evaluator.Thrifty after.evaluator
  recorded : ∃ accepted, before.archive.Takes accepted after.archive ∧
    after.history = ⟨before.history.remainingGoals ++ [after.remaining.length],
      before.history.archiveSize ++ [after.archive.size],
      before.history.cacheEntries ++ [after.evaluator.memo.size],
      before.history.accepted ++ [accepted]⟩

/-- Books that balance still do after one more generation. Each of the histories has grown by one
entry, and that entry is the total up to now. -/
theorem Balanced.advance {before after : Search ρ τ} {entries generation : Nat}
    (h : Balanced before entries) (hAscending : Goal.Ascending before.archive.goals)
    (hAfter : Advances before generation after) : Balanced after (entries + 1) := by
  obtain ⟨accepted, hTakes, hHistory⟩ := hAfter.recorded
  have hSize := hTakes.size hAscending
  have hNarrows := hAfter.narrows.length_le
  have hGrows := hAfter.runs.size_le
  exact {
    remainingGoals := by rw [hHistory, List.length_append, h.remainingGoals]; rfl
    archiveSize := by rw [hHistory, List.length_append, h.archiveSize]; rfl
    cacheEntries := by rw [hHistory, List.length_append, h.cacheEntries]; rfl
    accepted := by rw [hHistory, List.length_append, h.accepted]; rfl
    falls := by
      rw [hHistory]
      exact pairwise_append_twice h.falls (fun _ hz => Nat.le_trans hNarrows hz) (Nat.le_refl _)
    rises := by
      rw [hHistory]
      exact pairwise_append_twice h.rises (fun _ hz => Nat.le_trans hz hGrows) (Nat.le_refl _)
    sums := by
      rw [hHistory]
      intro i hi
      dsimp only
      rcases Nat.lt_succ_iff_lt_or_eq.mp hi with hEarlier | rfl
      · rw [List.getElem?_append_left (h.archiveSize ▸ hEarlier), h.sums i hEarlier,
          List.take_append_of_le_length (h.accepted ▸ hEarlier)]
      · rw [← h.archiveSize, List.getElem?_concat_length, h.archiveSize, List.take_of_length_le,
          List.sum_append, List.sum_singleton, hSize, h.total]
        simp [h.accepted]
    total := by
      rw [hHistory, hSize, h.total, List.sum_append, List.sum_singleton] }

variable {before : Search ρ τ} {accepted : Nat} {goals : List Goal}

theorem Midway.refl (search : Search ρ τ) : Midway search 0 search.remaining search :=
  ⟨rfl, rfl, rfl, rfl, rfl, .refl _, .nothing⟩

/-- Half way through a pass, drawing and evaluating book nothing. -/
theorem insulated_midway : Insulated before.evaluator.Thrifty (Midway before accepted goals) where
  sound h := h.runs
  replace _ _ h hRuns := { h with runs := hRuns }

/-- Half way through a pass, the archive and the goals are beyond the reach of the operations that
come between the offers. -/
theorem indifferent_midway (executor : Executor τ) (hGoals : goals.Nodup) :
    Indifferent executor before.evaluator.Thrifty (Midway before accepted goals) where
  toInsulated := insulated_midway
  evaluate := Evaluator.keeps_evaluate_thrifty executor
  matrix h chromosomes :=
    Evaluator.keeps_fitnessMatrix_thrifty executor chromosomes (h.remaining ▸ hGoals)

theorem tracks_midway : Tracks before.evaluator.Thrifty (fun _ _ => True)
    (fun accepted => Midway before accepted goals) where
  insulated _ := insulated_midway
  offers h _ := { h with takes := h.takes.offer _ _ _ _ }

/-- Which goals are left is known only when they have been brought up to date. -/
theorem Midway.updated {search : Search ρ τ} (h : Midway before accepted goals search) :
    Midway before accepted search.updated.remaining search.updated :=
  { h with remaining := rfl }

/-- What is written down at the end of a pass. -/
theorem Midway.recorded {search : Search ρ τ} (h : Midway before accepted goals search)
    (hGoals : goals.Sublist before.remaining) :
    Advances before before.generation (search.recorded accepted) where
  config := h.config
  cancelled := h.cancelled
  generation := h.generation
  narrows := h.remaining ▸ hGoals
  runs := h.runs
  recorded := ⟨accepted, h.takes, by rw [Search.recorded, h.history]⟩

variable [RandomSource ρ] [Variation ρ τ]

section Passes

variable (problem : Problem ρ τ)

/-- While goals are open a pass is a generation. -/
theorem confines_pass_midway (candidates : List (Chromosome τ)) (hOpen : before.remaining ≠ [])
    (hGoals : before.remaining.Nodup) {search : Search ρ τ}
    (hSearch : Midway before 0 before.remaining search) :
    Confines (fun _ _ => True) (· = search) (pass problem candidates) fun _ =>
      Advances before before.generation := by
  have hSame := hSearch.remaining
  rw [← hSame] at hOpen hGoals hSearch
  have hInsulated : Insulated before.evaluator.Thrifty (Midway before 0 search.remaining) :=
    insulated_midway
  have hBatch := hInsulated.keeps_evaluating
    (Evaluator.keeps_evaluateBatch_thrifty problem.executor candidates hGoals)
  refine Confines.pass (fun hNone => absurd hNone hOpen)
    (fun _ => hBatch.confines.starting hSearch)
    (fun rows => Confines.of_fact fun _ => (tracks_midway.ensures_inductions 0 fun entry _ =>
      (Evaluator.keeps_refresh_thrifty problem.executor entry.1 entry.2).weaken
        fun _ _ _ _ => trivial).confines) fun rows inductions => ?_
  refine Confines.of_state fun later hLater => ?_
  have hFewer : later.updated.remaining.Sublist search.remaining :=
    hLater.remaining ▸ List.filter_sublist
  refine ((indifferent_midway problem.executor (hFewer.nodup hGoals)).confines_nextPopulation
    hLater.updated _ _ _ _ _).weaken ?_
  rintro _ _ ⟨filled, hFilled, rfl⟩
  exact hFilled.recorded (hSame ▸ hFewer)

/-- Starting a search with open goals is the first generation. -/
theorem ensures_start (hOpen : before.remaining ≠ []) (hGoals : before.remaining.Nodup) :
    Ensures (· = before) (start problem) fun _ => Advances before 0 := by
  let origin : Search ρ τ := { before with generation := 0 }
  have hMidway : Indifferent problem.executor _ (Midway origin 0 origin.remaining) :=
    indifferent_midway problem.executor hGoals
  refine Confines.ensures (Confines.start (fun hNone => absurd hNone hOpen)
    (fun _ => (hMidway.keeps_freshCandidates _).confines.starting (Midway.refl origin))
    fun initial current hCurrent => ?_)
  have hEvaluating : Midway origin 0 origin.remaining { current with phase := .evaluating } :=
    { hCurrent.2 with }
  have hPass := @confines_pass_midway ρ τ _ origin _ _ problem initial hOpen hGoals _ hEvaluating
  exact hPass.weaken fun _ _ hAfter => { hAfter with }

/-- A step of a search with open goals is the next generation. -/
theorem ensures_step (hOpen : before.remaining ≠ []) (hGoals : before.remaining.Nodup) :
    Ensures (· = before) (step problem) fun _ => Advances before (before.generation + 1) := by
  have hMidway : Indifferent problem.executor _ (Midway before 0 before.remaining) :=
    indifferent_midway problem.executor hGoals
  refine Confines.ensures (Confines.step
    ((hMidway.keeps_breed _).confines.starting { Midway.refl before with })
    fun offspring current hCurrent => ?_)
  have hEvaluating : Midway before 0 before.remaining { current with phase := .evaluating } :=
    { hCurrent.2 with }
  exact (confines_pass_midway problem _ hOpen hGoals hEvaluating).weaken
    fun _ _ hAfter => { hAfter with generation := congrArg (· + 1) hAfter.generation }

end Passes

end WitnessSearch.Search
