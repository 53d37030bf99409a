import WitnessSearch.Proofs.Archive.Views

/-! The suite of an archive. It goes through the tests of all witnesses, goal by goal, and takes a
test unless one with its code came before. Witnesses are held with the fingerprints of whole
candidates, but here the codes of single tests are compared, so a test that several candidates have
in common is taken once. -/

namespace WitnessSearch.Archive

variable {τ : Type} [HasCode τ]

section Distinct

def firstOfEachCode (tests : List τ) : List τ :=
  (tests.zipIdx.filter fun (test, i) =>
    HasCode.code test ∉ (tests.take i).map HasCode.code).map Prod.fst

/-- Going through the tests with the codes seen so far comes to looking at all earlier tests of
each. -/
theorem distinctTests_eq (seen : List String) (tests : List τ) :
    distinctTests seen tests = (tests.zipIdx.filter fun (test, i) =>
      HasCode.code test ∉ seen ∧ HasCode.code test ∉ (tests.take i).map HasCode.code).map
        Prod.fst := by
  induction tests generalizing seen with
  | nil => rfl
  | cons first rest ih =>
      rw [distinctTests, List.zipIdx_cons', List.filter_cons, List.filter_map]
      have hEarlier : ∀ later : τ × Nat,
          HasCode.code later.1 ∉ ((first :: rest).take (later.2 + 1)).map HasCode.code ↔
            HasCode.code later.1 ≠ HasCode.code first ∧
              HasCode.code later.1 ∉ (rest.take later.2).map HasCode.code := by
        intro later
        rw [List.take_succ_cons, List.map_cons, List.mem_cons, not_or]
      split
      · rename_i hSeen
        rw [ih, if_neg (by simp [hSeen]), List.map_map]
        refine congrArg (List.map Prod.fst) (List.filter_congr fun later _ => ?_)
        refine decide_eq_decide.mpr (and_congr_right fun hNew => ?_)
        refine (and_iff_right ?_).symm.trans (hEarlier later).symm
        exact fun hCode => hNew (hCode ▸ hSeen)
      · rename_i hNew
        rw [ih, if_pos (by simp [hNew]), List.map_cons, List.map_map]
        refine congrArg (first :: List.map Prod.fst ·) (List.filter_congr fun later _ => ?_)
        refine decide_eq_decide.mpr (Iff.trans ?_ (and_congr_right' (hEarlier later)).symm)
        rw [List.mem_cons, not_or, and_assoc]
        exact and_left_comm

/-- The tests that are taken are some of those given, in the same order. -/
theorem distinctTests_sublist (seen : List String) (tests : List τ) :
    (distinctTests seen tests).Sublist tests := by
  induction tests generalizing seen with
  | nil => exact List.Sublist.slnil
  | cons first rest ih =>
      rw [distinctTests]
      split
      · exact (ih seen).cons first
      · exact (ih _).cons_cons first

/-- A code is among those taken exactly if it is among those given and was not seen before. -/
theorem mem_codes_distinctTests {seen : List String} {tests : List τ} {code : String} :
    code ∈ (distinctTests seen tests).map HasCode.code ↔
      code ∈ tests.map HasCode.code ∧ code ∉ seen := by
  induction tests generalizing seen with
  | nil => simp [distinctTests]
  | cons first rest ih =>
      rw [distinctTests]
      split
      · rename_i hSeen
        rw [ih, List.map_cons, List.mem_cons]
        grind
      · rename_i hNew
        rw [List.map_cons, List.map_cons, List.mem_cons, List.mem_cons, ih, List.mem_cons]
        grind

theorem nodup_codes_distinctTests (seen : List String) (tests : List τ) :
    ((distinctTests seen tests).map HasCode.code).Nodup := by
  induction tests generalizing seen with
  | nil => exact List.nodup_nil
  | cons first rest ih =>
      rw [distinctTests]
      split
      · exact ih seen
      · rw [List.map_cons, List.nodup_cons]
        refine ⟨fun hMem => ?_, ih _⟩
        exact (mem_codes_distinctTests.mp hMem).2 List.mem_cons_self

/-- The test that stays for a code is the first that has it. -/
theorem find?_distinctTests {seen : List String} (tests : List τ) {code : String}
    (h : code ∉ seen) :
    (distinctTests seen tests).find? (HasCode.code · = code) =
      tests.find? (HasCode.code · = code) := by
  induction tests generalizing seen with
  | nil => rfl
  | cons first rest ih =>
      rw [distinctTests, List.find?_cons]
      by_cases hFirst : HasCode.code first = code
      · subst hFirst
        rw [if_neg h, List.find?_cons_of_pos (by simp), decide_eq_true rfl]
      · rw [decide_eq_false hFirst]
        split
        · exact ih h
        · rw [List.find?_cons_of_neg (by simpa using hFirst)]
          exact ih (by simp [h, Ne.symm hFirst])

/-- The codes stay in the order in which they come up first. -/
theorem idxOf_codes_lt_iff {seen : List String} (tests : List τ) {code other : String}
    (h : code ∉ seen) (h' : other ∉ seen) :
    ((distinctTests seen tests).map HasCode.code).idxOf code <
        ((distinctTests seen tests).map HasCode.code).idxOf other ↔
      (tests.map HasCode.code).idxOf code < (tests.map HasCode.code).idxOf other := by
  induction tests generalizing seen with
  | nil => rfl
  | cons first rest ih =>
      rw [distinctTests, List.map_cons]
      split
      · rename_i hSeen
        have hFirst : HasCode.code first ≠ code := fun hSame => h (hSame ▸ hSeen)
        have hFirst' : HasCode.code first ≠ other := fun hSame => h' (hSame ▸ hSeen)
        rw [List.idxOf_cons_ne _ hFirst, List.idxOf_cons_ne _ hFirst', Nat.succ_lt_succ_iff]
        exact ih h h'
      · rw [List.map_cons]
        by_cases hFirst' : HasCode.code first = other
        · rw [List.idxOf_cons_eq _ hFirst', List.idxOf_cons_eq _ hFirst']
          simp
        rw [List.idxOf_cons_ne _ hFirst', List.idxOf_cons_ne _ hFirst']
        by_cases hFirst : HasCode.code first = code
        · rw [List.idxOf_cons_eq _ hFirst, List.idxOf_cons_eq _ hFirst]
          simp
        rw [List.idxOf_cons_ne _ hFirst, List.idxOf_cons_ne _ hFirst, Nat.succ_lt_succ_iff,
          Nat.succ_lt_succ_iff]
        exact ih (by simp [h, Ne.symm hFirst]) (by simp [h', Ne.symm hFirst'])

end Distinct

section Suite

variable {archive : Archive τ}

/-- The tests of a suite are tests of witnesses. -/
theorem exists_witness_of_mem_suite (h : Goal.Ascending archive.goals) {test : τ}
    (hMem : test ∈ archive.suite) :
    ∃ goal ∈ archive.goals, ∃ witness ∈ archive.witnesses goal,
      test ∈ witness.chromosome.tests := by
  obtain ⟨witness, hWitness, hTest⟩ :=
    List.mem_flatMap.mp ((distinctTests_sublist _ _).subset hMem)
  rw [allWitnesses_eq_flatMap h, List.mem_flatMap] at hWitness
  obtain ⟨goal, hGoal, hHeld⟩ := hWitness
  exact ⟨goal, hGoal, witness, hHeld, hTest⟩

/-- The codes in a suite are those of the tests of all witnesses. -/
theorem mem_codes_suite (h : Goal.Ascending archive.goals) {code : String} :
    code ∈ archive.suite.map HasCode.code ↔
      ∃ goal, ∃ witness ∈ archive.witnesses goal, code ∈ witness.chromosome.codes := by
  rw [suite, mem_codes_distinctTests, and_iff_left List.not_mem_nil, List.map_flatMap,
    List.mem_flatMap]
  constructor
  · rintro ⟨witness, hWitness, hCode⟩
    obtain ⟨goal, hHeld⟩ := exists_of_mem_allWitnesses h hWitness
    exact ⟨goal, witness, hHeld, hCode⟩
  · rintro ⟨goal, witness, hHeld, hCode⟩
    refine ⟨witness, ?_, hCode⟩
    rw [allWitnesses_eq_flatMap h, List.mem_flatMap]
    exact ⟨goal, mem_goals_of_witnesses_ne_nil (List.ne_nil_of_mem hHeld), hHeld⟩

/-- Further requests take no code out of the suite, since they take no witness out of the
archive. -/
theorem codes_suite_subset_serveAll (h : Goal.Ascending archive.goals)
    (requests : List (Request τ)) :
    archive.suite.map HasCode.code ⊆ (archive.serveAll requests).suite.map HasCode.code := by
  intro code hCode
  obtain ⟨goal, witness, hHeld, hOf⟩ := (mem_codes_suite h).mp hCode
  exact (mem_codes_suite (ascending_serveAll h requests)).mpr
    ⟨goal, witness, (witnesses_prefix_serveAll archive requests goal).subset hHeld, hOf⟩

end Suite

/-- After any requests the suite of an archive consists of the tests of all witnesses, the goals
ascending and the witnesses of each in the order of acceptance, but for the tests whose code is that
of an earlier one. So no two tests of the suite have one code, the code of every test of every
witness is in it, and each of its tests is a test of a witness. The test that stands for a code is
the first that has it, and the codes follow one another as they come up first. No further request,
be it an offer that is accepted, takes a code out of the suite. -/
theorem suite_has_each_code_once {target : ℕ} (hTarget : 0 < target) :
    ∃ fresh : Archive τ, Archive.new target = .ok fresh ∧
      ∀ requests : List (Request τ),
        let archive := fresh.serveAll requests
        let tests := archive.goals.flatMap fun goal =>
          (archive.witnesses goal).flatMap (·.chromosome.tests)
        Goal.Ascending archive.goals ∧
        archive.suite = firstOfEachCode tests ∧
        (archive.suite.map HasCode.code).Nodup ∧
        (∀ goal, ∀ witness ∈ archive.witnesses goal, ∀ test ∈ witness.chromosome.tests,
          HasCode.code test ∈ archive.suite.map HasCode.code) ∧
        (∀ test ∈ archive.suite, ∃ goal ∈ archive.goals, ∃ witness ∈ archive.witnesses goal,
          test ∈ witness.chromosome.tests) ∧
        (∀ code, archive.suite.find? (HasCode.code · = code) =
          tests.find? (HasCode.code · = code)) ∧
        (∀ code other,
          (archive.suite.map HasCode.code).idxOf code <
              (archive.suite.map HasCode.code).idxOf other ↔
            (tests.map HasCode.code).idxOf code < (tests.map HasCode.code).idxOf other) ∧
        ∀ later, archive.suite.map HasCode.code ⊆
          (archive.serveAll later).suite.map HasCode.code := by
  refine ⟨⟨target, []⟩, new_eq_ok_iff.mpr ⟨hTarget, rfl⟩, ?_⟩
  intro requests archive tests
  have hAscending : Goal.Ascending archive.goals :=
    ascending_serveAll (ascending_goals_empty target) requests
  have hSuite : archive.suite = distinctTests [] tests := by
    rw [suite, allWitnesses_eq_flatMap hAscending, List.flatMap_assoc]
  refine ⟨hAscending, ?_, ?_, ?_, fun _ => exists_witness_of_mem_suite hAscending, ?_, ?_,
    codes_suite_subset_serveAll hAscending⟩
  · rw [hSuite, distinctTests_eq]
    simp [firstOfEachCode]
  · rw [hSuite]
    exact nodup_codes_distinctTests [] tests
  · intro goal witness hHeld test hTest
    exact (mem_codes_suite hAscending).mpr ⟨goal, witness, hHeld, List.mem_map_of_mem hTest⟩
  · rw [hSuite]
    exact fun code => find?_distinctTests tests List.not_mem_nil
  · rw [hSuite]
    exact fun code other => idxOf_codes_lt_iff tests List.not_mem_nil List.not_mem_nil

/-- A candidate whose tests are calls with the given arguments, as it was observed at some value. -/
def observedSuite (args : List Int64) (value : Float) : Offer InputVector :=
  ⟨.suite (args.map fun arg => ⟨"f", [arg], 0, 9⟩), some ⟨[value]⟩, 0⟩

/-- Calls that a suite repeats, and those that witnesses of one goal or of several have in common,
are taken where they come up first. -/
theorem suite_has_each_code_once_shared :
    let goal := Goal.located "g" "unit" "f" 1
    let other := Goal.located "h" "unit" "f" 1
    let requests := [.offer other (observedSuite [4, 2] 1.0),
      .offer goal (observedSuite [3, 1, 3] 1.0), .offer goal (observedCall [2.0])]
    0 < 2 ∧ ∃ fresh : Archive InputVector, Archive.new 2 = .ok fresh ∧
      let archive := fresh.serveAll requests
      archive.suite.map HasCode.code = ["f(3);", "f(1);", "f(4);", "f(2);"] ∧
      (archive.suite.map HasCode.code).Nodup ∧
      "f(1);" ∈ (archive.serveAll [.offer goal (observedCall [3.0])]).suite.map HasCode.code := by
  intro goal other requests
  obtain ⟨fresh, hNew, hSuites⟩ :=
    suite_has_each_code_once (τ := InputVector) (by decide : 0 < 2)
  obtain ⟨-, -, hNodup, -, -, -, -, hStays⟩ := hSuites requests
  obtain ⟨-, rfl⟩ := new_eq_ok_iff.mp hNew
  have hCodes : (((⟨2, []⟩ : Archive InputVector).serveAll requests).suite.map HasCode.code) =
      ["f(3);", "f(1);", "f(4);", "f(2);"] := by
    decide +kernel
  refine ⟨by decide, _, hNew, hCodes, hNodup, hStays _ ?_⟩
  rw [hCodes]
  decide

end WitnessSearch.Archive
