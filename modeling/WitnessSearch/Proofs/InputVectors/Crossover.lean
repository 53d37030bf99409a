import WitnessSearch.InputVector.Basic
import WitnessSearch.Proofs.Lists
import WitnessSearch.Proofs.Random.Draws
import WitnessSearch.Random.Replay

/-! Crossing of candidates that consist of argument vectors. Two single calls are cut at one place,
two suites at a place in each, and what lies behind the cuts changes sides, so nothing is lost and
nothing is there twice. Candidates that cannot be crossed take no draw and stay as they are. -/

namespace WitnessSearch

open Draw

namespace InputVector

/-- A call with its arguments up to a cut and those of another call from there on. -/
def spliced (a b : InputVector) (cut : Nat) : InputVector :=
  { a with args := a.args.take cut ++ b.args.drop cut }

/-- A place to cut so many arguments at. There is something on both sides of it, unless there are
fewer than two arguments. -/
def IsCut (arity cut : Nat) : Prop :=
  if arity < 2 then cut = 0 else 1 ≤ cut ∧ cut < arity

/-- Calls that differ in more than the values of their arguments. -/
def Mismatched (a b : InputVector) : Prop :=
  a.args.length ≠ b.args.length ∨ a.function ≠ b.function

variable {ρ : Type} [RandomSource ρ] {faults : Fault → Prop} {a b : InputVector}

/-- Mismatched tests are handed back as they were, and nothing is drawn. -/
theorem crossover_of_mismatched (h : a.Mismatched b) :
    ∃ failure, (a.crossover b : Draw ρ (Crossing InputVector)) = pure ⟨a, b, some failure⟩ := by
  unfold crossover
  split
  · exact ⟨_, rfl⟩
  · rename_i hArity
    rw [if_pos (h.resolve_left hArity)]
    exact ⟨_, rfl⟩

/-- Tests that match are spliced at a cut inside of their arguments. -/
theorem yields_crossover (hEndless : faults .endlessRejection) (h : ¬a.Mismatched b) :
    Yields faults (a.crossover b : Draw ρ (Crossing InputVector)) fun crossing =>
      ∃ cut, IsCut a.args.length cut ∧ crossing = ⟨a.spliced b cut, b.spliced a cut, none⟩ := by
  obtain ⟨hArity, hFunction⟩ : a.args.length = b.args.length ∧ a.function = b.function := by
    simpa [Mismatched] using h
  unfold crossover
  rw [if_neg (not_not.mpr hArity), if_neg (not_not.mpr hFunction)]
  dsimp only
  split
  · rename_i hSeveral
    have hCut : Yields faults
        ((· + 1) <$> Draw.below (a.args.length - 1) : Draw ρ Nat) (IsCut a.args.length) := by
      refine Guards.bind (yields_below hEndless (Nat.sub_pos_of_lt hSeveral)) fun cut hLess => ?_
      apply Guards.pure
      change IsCut _ (cut + 1)
      rw [IsCut, if_neg (Nat.not_lt.mpr hSeveral)]
      omega
    exact Guards.bind hCut fun cut hCut => Guards.pure ⟨cut, hCut, rfl⟩
  · rename_i hFew
    exact Guards.pure ⟨0, by simp [IsCut]; omega, rfl⟩

end InputVector

namespace Chromosome

/-- Candidates that cannot be crossed. -/
inductive Uncrossable : Chromosome InputVector → Chromosome InputVector → Prop where
  | singleWithSuite (a : InputVector) (bs : List InputVector) : Uncrossable (.single a) (.suite bs)
  | suiteWithSingle (as : List InputVector) (b : InputVector) : Uncrossable (.suite as) (.single b)
  | emptySuite {as bs : List InputVector} (h : as = [] ∨ bs = []) :
      Uncrossable (.suite as) (.suite bs)
  | calls {a b : InputVector} (h : a.Mismatched b) :
      Uncrossable (.single a) (.single b)

/-- Two candidates, and what they have become by exchanging what lies behind their cuts. -/
inductive Exchanged : Chromosome InputVector → Chromosome InputVector →
    Chromosome InputVector → Chromosome InputVector → Prop where
  | calls {a b : InputVector} (cut : Nat) (hCut : InputVector.IsCut a.args.length cut) :
      Exchanged (.single a) (.single b) (.single (a.spliced b cut)) (.single (b.spliced a cut))
  | suites {as bs : List InputVector} (i j : Nat) (hi : i ≤ as.length) (hj : j ≤ bs.length) :
      Exchanged (.suite as) (.suite bs)
        (.suite (as.take i ++ bs.drop j)) (.suite (bs.take j ++ as.drop i))

section Exchange

variable {a b a' b' : Chromosome InputVector}

/-- An exchange conserves the number of tests. -/
theorem Exchanged.size_add_size (h : Exchanged a b a' b') :
    a'.size + b'.size = a.size + b.size := by
  cases h with
  | calls cut hCut => rfl
  | suites i j hi hj =>
      simp only [size, tests, List.length_append, List.length_take, List.length_drop]
      omega

/-- An exchange of suites loses no test and makes none, it only deals them anew. -/
theorem Exchanged.perm_tests {as bs : List InputVector}
    (h : Exchanged (.suite as) (.suite bs) a' b') : (a'.tests ++ b'.tests).Perm (as ++ bs) := by
  cases h with
  | suites i j hi hj => exact perm_exchange as bs i j

/-- The arguments of single calls change sides as the tests of suites do. -/
theorem Exchanged.perm_args (h : Exchanged a b a' b') :
    ((a'.tests ++ b'.tests).flatMap InputVector.args).Perm
      ((a.tests ++ b.tests).flatMap InputVector.args) := by
  cases h with
  | @calls a b cut hCut =>
      simpa [tests, InputVector.spliced] using perm_exchange a.args b.args cut cut
  | @suites as bs i j hi hj => exact (perm_exchange as bs i j).flatMap_right _

end Exchange

section Runs

variable {ρ : Type} [RandomSource ρ] {faults : Fault → Prop} {a b : Chromosome InputVector}

/-- Nothing is drawn for candidates that cannot be crossed. -/
theorem crossover_of_uncrossable (h : Uncrossable a b) (source : ρ) :
    ∃ failure, a.crossover b source = .ok ⟨a, b, some failure⟩ source := by
  cases h with
  | singleWithSuite a bs => exact ⟨_, rfl⟩
  | suiteWithSingle as b => exact ⟨_, rfl⟩
  | @emptySuite as bs hEmpty =>
      have hSome : (as.isEmpty || bs.isEmpty) = true := by simpa using hEmpty
      simp only [crossover, hSome, if_true]
      exact ⟨_, rfl⟩
  | @calls a b hMismatched =>
      obtain ⟨failure, hRefused⟩ :=
        InputVector.crossover_of_mismatched (ρ := ρ) (a := a) (b := b) hMismatched
      simp only [crossover, Variation.crossover, hRefused, pure_bind]
      exact ⟨failure, rfl⟩

/-- Chromosomes that can be crossed are exchanged, and there is no failure to report. -/
theorem yields_crossover (hEndless : faults .endlessRejection) (h : ¬Uncrossable a b) :
    Yields faults (a.crossover b : Draw ρ (Crossing (Chromosome InputVector))) fun crossing =>
      crossing.failure = none ∧ Exchanged a b crossing.first crossing.second := by
  cases a with
  | single a =>
      cases b with
      | single b =>
          have hMatched : ¬a.Mismatched b := fun hMismatched => h (.calls hMismatched)
          refine Guards.bind (InputVector.yields_crossover hEndless hMatched)
            fun crossing hCrossing => ?_
          obtain ⟨cut, hCut, rfl⟩ := hCrossing
          exact Guards.pure ⟨rfl, .calls cut hCut⟩
      | suite bs => exact absurd (.singleWithSuite a bs) h
  | suite as =>
      cases b with
      | single b => exact absurd (.suiteWithSingle as b) h
      | suite bs =>
          have hSome : ¬(as.isEmpty || bs.isEmpty) = true := fun hEmpty =>
            h (.emptySuite (by simpa using hEmpty))
          simp only [crossover, hSome]
          refine Guards.bind (yields_below hEndless (Nat.succ_pos as.length)) fun i hi => ?_
          refine Guards.bind (yields_below hEndless (Nat.succ_pos bs.length)) fun j hj => ?_
          exact Guards.pure ⟨rfl, .suites i j (Nat.le_of_lt_succ hi) (Nat.le_of_lt_succ hj)⟩

/-- Candidates that cannot be crossed are left as they are. All others exchange what lies behind
their cuts, provided that the draws of the cuts come to an end: their sizes add up to what they were
and the arguments are those from before, and so are the tests of suites. -/
theorem crossover_conserves (a b : Chromosome InputVector) (source : ρ) :
    (Uncrossable a b → ∃ failure, a.crossover b source = .ok ⟨a, b, some failure⟩ source) ∧
    (¬Uncrossable a b →
      (∃ a' b' final, a.crossover b source = .ok ⟨a', b', none⟩ final ∧ Exchanged a b a' b' ∧
        a'.size + b'.size = a.size + b.size ∧
        ((a'.tests ++ b'.tests).flatMap InputVector.args).Perm
          ((a.tests ++ b.tests).flatMap InputVector.args) ∧
        ∀ as bs, a = .suite as → b = .suite bs → (a'.tests ++ b'.tests).Perm (as ++ bs)) ∨
      ∃ final, a.crossover b source = .error .endlessRejection final) := by
  refine ⟨fun h => crossover_of_uncrossable h source, fun h => ?_⟩
  have hYields : Yields (· = .endlessRejection)
      (a.crossover b : Draw ρ (Crossing (Chromosome InputVector))) _ := yields_crossover rfl h
  cases hRun : a.crossover b source with
  | error fault final =>
      obtain rfl := hYields.fault trivial hRun
      exact .inr ⟨final, rfl⟩
  | ok crossing final =>
      obtain ⟨⟨hDone, hExchanged⟩, -⟩ := hYields.answer trivial hRun
      obtain ⟨a', b', failure⟩ := crossing
      obtain rfl := hDone
      refine .inl ⟨a', b', final, rfl, hExchanged, hExchanged.size_add_size,
        hExchanged.perm_args, ?_⟩
      rintro as bs rfl rfl
      exact hExchanged.perm_tests

end Runs

section Sample

def pairCall (x y : Int64) : Chromosome InputVector :=
  .single ⟨"f", [x, y], -9, 9⟩

theorem crossable_pairCall (x y z w : Int64) : ¬Uncrossable (pairCall x y) (pairCall z w) := by
  intro h
  cases h with
  | calls h => simp [InputVector.Mismatched] at h

/-- There is one place to cut two arguments at. -/
theorem Exchanged.pairCall {x y z w : Int64} {a' b' : Chromosome InputVector}
    (h : Exchanged (pairCall x y) (pairCall z w) a' b') :
    a' = Chromosome.pairCall x w ∧ b' = Chromosome.pairCall z y := by
  cases h with
  | calls cut hCut =>
      obtain rfl : cut = 1 := by
        simp [InputVector.IsCut] at hCut
        omega
      exact ⟨rfl, rfl⟩

/-- Two calls of one function exchange their second arguments. A call and a suite stay as they
are. -/
theorem crossover_conserves_pairs :
    ¬Uncrossable (pairCall 1 2) (pairCall 3 4) ∧
    (∃ final, (pairCall 1 2).crossover (pairCall 3 4) (Replay.start [0] 0) =
      .ok ⟨pairCall 1 4, pairCall 3 2, none⟩ final) ∧
    Uncrossable (pairCall 1 2) (.suite []) ∧
    ∃ failure, (pairCall 1 2).crossover (.suite []) (Replay.start [0] 0) =
      .ok ⟨pairCall 1 2, .suite [], some failure⟩ (Replay.start [0] 0) := by
  have hMixed : Uncrossable (pairCall 1 2) (.suite []) := .singleWithSuite _ []
  have hCalls := crossable_pairCall 1 2 3 4
  refine ⟨hCalls, ?_, hMixed, (crossover_conserves _ _ _).1 hMixed⟩
  have hEnds : (match (pairCall 1 2).crossover (pairCall 3 4) (Replay.start [0] 0) with
      | .ok _ _ => true
      | .error _ _ => false) = true := by
    decide +kernel
  rcases (crossover_conserves (pairCall 1 2) (pairCall 3 4) (Replay.start [0] 0)).2 hCalls with
    ⟨a', b', final, hRun, hExchanged, -⟩ | ⟨final, hRun⟩
  · obtain ⟨rfl, rfl⟩ := hExchanged.pairCall
    exact ⟨final, hRun⟩
  · rw [hRun] at hEnds
    cases hEnds

end Sample

end Chromosome

end WitnessSearch
