import Mathlib.Logic.Relation
import WitnessSearch.InputVector.Basic
import WitnessSearch.Proofs.Evaluation.Accounting
import WitnessSearch.Proofs.Search.Survivors

/-! What fingerprints tell apart. A suite joins the codes of its tests with blank lines and frames
the result, and nothing in the codes is escaped. So two suites have one fingerprint exactly when the
codes of one can be got from those of the other by joining neighbours and by splitting codes at
blank lines, and a single test has the fingerprint of a suite when its code imitates the frame. -/

namespace WitnessSearch

section Joining

def joined (codes : List String) : String :=
  String.intercalate "\n\n" codes

/-- Codes before and after two neighbours become one code with the same text. No code at all has
the same text as one empty code. -/
inductive Joins : List String → List String → Prop
  | empty : Joins [] [""]
  | neighbours (before : List String) (a b : String) (after : List String) :
      Joins (before ++ a :: b :: after) (before ++ (a ++ "\n\n" ++ b) :: after)

/-- Codes that can be got from each other by joining neighbours and splitting at blank lines. -/
abbrev Regrouped : List String → List String → Prop :=
  Relation.EqvGen Joins

/-- Behind the first code, every other one stands after a blank line. -/
theorem toList_joined_cons (first : String) (rest : List String) :
    (joined (first :: rest)).toList =
      first.toList ++ rest.flatMap fun code => '\n' :: '\n' :: code.toList := by
  simp [joined, String.toList_intercalate, intercalate_cons, List.flatMap_map]

theorem joined_singleton (code : String) : joined [code] = code := by
  simp [← String.toList_inj, toList_joined_cons]

/-- Joining two neighbours with a blank line between them does not change the text. -/
theorem Joins.joined_eq {codes others : List String} (h : Joins codes others) :
    joined codes = joined others := by
  cases h with
  | empty => decide
  | neighbours before a b after =>
      rw [← String.toList_inj]
      cases before with
      | nil => simp [toList_joined_cons]
      | cons first before => simp [toList_joined_cons]

/-- All codes can be joined to one. -/
theorem regrouped_joined (codes : List String) : Regrouped codes [joined codes] := by
  cases codes with
  | nil => exact .rel _ _ .empty
  | cons first rest =>
      induction rest generalizing first with
      | nil =>
          rw [joined_singleton]
          exact .refl _
      | cons next rest ih =>
          have hJoin : Joins (first :: next :: rest) ((first ++ "\n\n" ++ next) :: rest) :=
            .neighbours [] first next rest
          rw [hJoin.joined_eq]
          exact .trans _ _ _ (.rel _ _ hJoin) (ih _)

/-- The text of the codes tells them up to regrouping. -/
theorem joined_eq_iff {codes others : List String} :
    joined codes = joined others ↔ Regrouped codes others := by
  constructor
  · intro h
    exact .trans _ _ _ (regrouped_joined codes) (h ▸ .symm _ _ (regrouped_joined others))
  · intro h
    induction h with
    | rel _ _ hJoins => exact hJoins.joined_eq
    | refl => rfl
    | symm _ _ _ ih => exact ih.symm
    | trans _ _ _ _ _ ihFirst ihLater => exact ihFirst.trans ihLater

end Joining

section Splitting

/-- A text has no blank line, and none begins at its end. -/
def Unbroken (text : List Char) : Prop :=
  ¬['\n', '\n'] <:+: text ++ ['\n']

instance (text : List Char) : Decidable (Unbroken text) :=
  inferInstanceAs (Decidable (¬_))

/-- The first blank line behind the beginning of an unbroken text is behind its end. -/
theorem eq_nil_of_unbroken {text more rest later : List Char} (h : Unbroken (text ++ more))
    (hSame : '\n' :: '\n' :: rest = more ++ later) : more = [] := by
  match more, hSame with
  | [], _ => rfl
  | [c], hSame =>
      obtain ⟨rfl, -⟩ := List.cons.inj hSame
      exact absurd ⟨text, [], by simp⟩ h
  | c :: d :: more, hSame =>
      obtain ⟨rfl, hTail⟩ := List.cons.inj hSame
      obtain ⟨rfl, -⟩ := List.cons.inj hTail
      exact absurd ⟨text, more ++ ['\n'], by simp⟩ h

/-- The first of some codes is known from their text when it is unbroken. If one of two such codes
went on behind the other, a blank line would stand inside of it. -/
theorem first_eq_of_joined_eq {first first' : String} {rest rest' : List String}
    (h : Unbroken first.toList) (h' : Unbroken first'.toList)
    (hSame : joined (first :: rest) = joined (first' :: rest')) : first = first' := by
  rw [← String.toList_inj, toList_joined_cons, toList_joined_cons] at hSame
  rw [← String.toList_inj]
  rcases List.append_eq_append_iff.mp hSame with ⟨more, hMore, hRest⟩ | ⟨more, hMore, hRest⟩
  · cases rest with
    | nil => simp_all
    | cons next rest =>
        rw [hMore] at h'
        rw [hMore, eq_nil_of_unbroken h' hRest, List.append_nil]
  · cases rest' with
    | nil => simp_all
    | cons next rest' =>
        rw [hMore] at h
        rw [hMore, eq_nil_of_unbroken h hRest, List.append_nil]

/-- Unbroken codes are known from their text. -/
theorem cons_eq_of_joined_eq {first first' : String} {rest rest' : List String}
    (h : ∀ code ∈ first :: rest, Unbroken code.toList)
    (h' : ∀ code ∈ first' :: rest', Unbroken code.toList)
    (hSame : joined (first :: rest) = joined (first' :: rest')) :
    first :: rest = first' :: rest' := by
  induction rest generalizing first first' rest' with
  | nil =>
      obtain rfl := first_eq_of_joined_eq (h _ List.mem_cons_self) (h' _ List.mem_cons_self) hSame
      rw [← String.toList_inj, toList_joined_cons, toList_joined_cons] at hSame
      cases rest' with
      | nil => rfl
      | cons next' rest' => cases List.append_cancel_left hSame
  | cons next rest ih =>
      obtain rfl := first_eq_of_joined_eq (h _ List.mem_cons_self) (h' _ List.mem_cons_self) hSame
      rw [← String.toList_inj, toList_joined_cons, toList_joined_cons] at hSame
      cases rest' with
      | nil => cases List.append_cancel_left hSame
      | cons next' rest' =>
          have hNext : joined (next :: rest) = joined (next' :: rest') := by
            rw [← String.toList_inj, toList_joined_cons, toList_joined_cons]
            simpa using hSame
          rw [ih (fun code hMem => h code (List.mem_cons_of_mem _ hMem))
            (fun code hMem => h' code (List.mem_cons_of_mem _ hMem)) hNext]

/-- Codes of which none has a blank line or ends in the middle of one, and not one empty code
alone. -/
structure Separable (codes : List String) : Prop where
  unbroken : ∀ code ∈ codes, Unbroken code.toList
  notEmpty : codes ≠ [""]

/-- Separable codes that come to an empty text are no codes at all. -/
theorem Separable.eq_nil_of_joined_eq {codes : List String} (h : Separable codes)
    (hText : joined codes = "") : codes = [] := by
  cases codes with
  | nil => rfl
  | cons first rest =>
      rw [← String.toList_inj, toList_joined_cons] at hText
      obtain ⟨hFirst, hRest⟩ := List.append_eq_nil_iff.mp hText
      obtain rfl : first = "" := String.toList_inj.mp hFirst
      cases rest with
      | nil => exact absurd rfl h.notEmpty
      | cons next rest => cases hRest

/-- Separable codes are known from their text. -/
theorem Separable.eq_of_joined_eq {codes others : List String} (h : Separable codes)
    (h' : Separable others) (hSame : joined codes = joined others) : codes = others := by
  have hNil : joined [] = "" := rfl
  cases codes with
  | nil => rw [h'.eq_nil_of_joined_eq (hSame.symm.trans hNil)]
  | cons first rest =>
      cases others with
      | nil => rw [h.eq_nil_of_joined_eq (hSame.trans hNil)]
      | cons first' rest' =>
          exact cons_eq_of_joined_eq h.unbroken h'.unbroken hSame

end Splitting

namespace Chromosome

variable {τ : Type} [HasCode τ]

/-- The frame of a suite around the text of its codes. -/
def frame (body : String) : String :=
  r"suite {" ++ "\n" ++ body ++ "\n" ++ r"}"

/-- What is framed can be read off the frame. -/
theorem frame_inj {body other : String} : frame body = frame other ↔ body = other := by
  simp [frame, ← String.toList_inj]

/-- Two candidates of one kind whose tests have the same codes in the same order. -/
inductive SameTests : Chromosome τ → Chromosome τ → Prop
  | single {a b : τ} (h : HasCode.code a = HasCode.code b) : SameTests (.single a) (.single b)
  | suite {as bs : List τ} (h : as.map HasCode.code = bs.map HasCode.code) :
      SameTests (.suite as) (.suite bs)

/-- Two candidates that nothing in their codes tells apart once these are joined and framed. -/
inductive Alike : Chromosome τ → Chromosome τ → Prop
  | single {a b : τ} (h : HasCode.code a = HasCode.code b) : Alike (.single a) (.single b)
  | suite {as bs : List τ} (h : Regrouped (as.map HasCode.code) (bs.map HasCode.code)) :
      Alike (.suite as) (.suite bs)
  /-- The code of a single test has the frame of a suite around it. -/
  | imitation {a : τ} {bs : List τ} {body : String} (hFrame : HasCode.code a = frame body)
      (h : Regrouped [body] (bs.map HasCode.code)) : Alike (.single a) (.suite bs)
  | imitated {as : List τ} {b : τ} {body : String} (hFrame : HasCode.code b = frame body)
      (h : Regrouped (as.map HasCode.code) [body]) : Alike (.suite as) (.single b)

/-- A candidate whose codes cannot be taken for others: a single test does not imitate a suite, and
the codes of a suite are separable. -/
def Plain : Chromosome τ → Prop
  | .single test => ∀ body, HasCode.code test ≠ frame body
  | .suite tests => Separable (tests.map HasCode.code)

theorem fingerprint_single (test : τ) :
    (single test).fingerprint = ⟨HasCode.code test⟩ :=
  rfl

/-- A suite has the framed text of its codes for a fingerprint. -/
theorem fingerprint_suite (tests : List τ) :
    (suite tests).fingerprint = ⟨frame (joined (tests.map HasCode.code))⟩ :=
  rfl

/-- A single test has the fingerprint of a suite when its code is a frame around their text. -/
theorem eq_frame_joined_iff {code : String} {codes : List String} :
    code = frame (joined codes) ↔ ∃ body, code = frame body ∧ Regrouped [body] codes := by
  constructor
  · rintro rfl
    exact ⟨_, rfl, .symm _ _ (regrouped_joined codes)⟩
  · rintro ⟨body, rfl, hBody⟩
    rw [← joined_eq_iff.mpr hBody, joined_singleton]

/-- The fingerprint tells apart exactly what is not alike. -/
theorem fingerprint_eq_iff {c d : Chromosome τ} : c.fingerprint = d.fingerprint ↔ c.Alike d := by
  cases c with
  | single a =>
      cases d with
      | single b =>
          rw [fingerprint_single, fingerprint_single, Fingerprint.mk.injEq]
          exact ⟨.single, fun | .single h => h⟩
      | suite bs =>
          rw [fingerprint_single, fingerprint_suite, Fingerprint.mk.injEq, eq_frame_joined_iff]
          exact ⟨fun ⟨_, hFrame, h⟩ => .imitation hFrame h,
            fun | .imitation hFrame h => ⟨_, hFrame, h⟩⟩
  | suite as =>
      cases d with
      | single b =>
          rw [fingerprint_single, fingerprint_suite, Fingerprint.mk.injEq, eq_comm,
            eq_frame_joined_iff]
          exact ⟨fun ⟨_, hFrame, h⟩ => .imitated hFrame (.symm _ _ h),
            fun | .imitated hFrame h => ⟨_, hFrame, .symm _ _ h⟩⟩
      | suite bs =>
          rw [fingerprint_suite, fingerprint_suite, Fingerprint.mk.injEq, frame_inj, joined_eq_iff]
          exact ⟨.suite, fun | .suite h => h⟩

/-- The fingerprint depends on the kind of a candidate and on the codes of its tests. -/
theorem SameTests.fingerprint_eq {c d : Chromosome τ} (h : c.SameTests d) :
    c.fingerprint = d.fingerprint := by
  cases h with
  | single h => rw [fingerprint_single, fingerprint_single, h]
  | suite h => rw [fingerprint_suite, fingerprint_suite, h]

/-- Plain candidates with one fingerprint are of one kind and have the same tests. -/
theorem Plain.sameTests {c d : Chromosome τ} (hc : c.Plain) (hd : d.Plain)
    (h : c.fingerprint = d.fingerprint) : c.SameTests d := by
  cases fingerprint_eq_iff.mp h with
  | single hSame => exact .single hSame
  | suite hSame => exact .suite (hc.eq_of_joined_eq hd (joined_eq_iff.mpr hSame))
  | imitation hFrame => exact absurd hFrame (hc _)
  | imitated hFrame => exact absurd hFrame (hd _)

section Sharing

open Evaluator Search

/-- What is stored for a candidate is found for those that are alike and for no others. -/
theorem peek?_insert_eq_some_iff {memo : Memo} {c d : Chromosome τ} {goal : Goal}
    (hNew : memo.peek? d.fingerprint goal = none) (execution : Execution) :
    (memo.insert c.fingerprint goal execution).peek? d.fingerprint goal = some execution ↔
      c.Alike d := by
  rw [Memo.peek?_insert, hNew, Option.none_or, ← fingerprint_eq_iff]
  simp

/-- A batch runs something alike for each of its candidates. -/
theorem exists_first_alike {batch : List (Chromosome τ)} {c : Chromosome τ} (h : c ∈ batch) :
    ∃ first ∈ firsts [] (named batch), first.2.Alike c := by
  obtain ⟨first, hFirst, hName⟩ := exists_mem_firsts
    (List.mem_map_of_mem h : (c.fingerprint, c) ∈ named batch) List.not_mem_nil
  have hProper : first.1 = first.2.fingerprint := proper_of_mem_named (mem_firsts_of_mem hFirst)
  exact ⟨first, hFirst, fingerprint_eq_iff.mp (hProper.symm.trans hName)⟩

/-- No two of the candidates that a batch runs are alike. -/
theorem pairwise_firsts (batch : List (Chromosome τ)) :
    (firsts [] (named batch)).Pairwise fun first later => ¬first.2.Alike later.2 := by
  have hNames := List.pairwise_map.mp (nodup_firsts [] (named batch)).1
  refine hNames.imp_of_mem fun {first later} hFirst hLater hDistinct hAlike => hDistinct ?_
  have hProper : first.1 = first.2.fingerprint := proper_of_mem_named (mem_firsts_of_mem hFirst)
  have hProper' : later.1 = later.2.fingerprint := proper_of_mem_named (mem_firsts_of_mem hLater)
  rw [hProper, hProper', fingerprint_eq_iff.mpr hAlike]

/-- A candidate gets a place in a population with room unless a member is alike. -/
theorem members_add_iff {size : Nat} {roster : Roster τ} (h : roster.Fits size)
    (hRoom : roster.members.length < size) (c : Chromosome τ) :
    (roster.add size c).members = roster.members ++ [c] ↔
      ∀ member ∈ roster.members, ¬member.Alike c := by
  have hFree : (∀ member ∈ roster.members, ¬member.Alike c) ↔ c.fingerprint ∉ roster.taken := by
    simp [h.taken, fingerprint_eq_iff]
  rw [hFree]
  by_cases hTaken : c.fingerprint ∈ roster.taken
  · simp [Roster.add, hTaken]
  · simp [Roster.add, hTaken, Nat.not_le.mpr hRoom]

/-- What shares a fingerprint. Two candidates have one fingerprint exactly if they are alike, and
plain candidates are alike exactly if they are of one kind and their tests have the same codes in
the same order. An entry of the memo, a run of a batch and a place in a population are shared by
candidates that are alike and by no others. -/
theorem shares_iff_alike :
    (∀ c d : Chromosome τ, c.fingerprint = d.fingerprint ↔ c.Alike d) ∧
    (∀ c d : Chromosome τ, c.Plain → d.Plain → (c.Alike d ↔ c.SameTests d)) ∧
    (∀ (memo : Memo) (goal : Goal) (execution : Execution) (c d : Chromosome τ),
      memo.peek? d.fingerprint goal = none →
        ((memo.insert c.fingerprint goal execution).peek? d.fingerprint goal = some execution ↔
          c.Alike d)) ∧
    (∀ batch : List (Chromosome τ),
      (∀ c ∈ batch, ∃ first ∈ firsts [] (named batch), first.2.Alike c) ∧
      (firsts [] (named batch)).Pairwise fun first later => ¬first.2.Alike later.2) ∧
    ∀ (size : Nat) (candidates : List (Chromosome τ)) (c : Chromosome τ),
      let roster := candidates.foldl (Roster.add size) ⟨[], []⟩
      roster.members.length < size →
        ((roster.add size c).members = roster.members ++ [c] ↔
          ∀ member ∈ roster.members, ¬member.Alike c) := by
  refine ⟨fun c d => fingerprint_eq_iff, fun c d hc hd => ⟨?_, ?_⟩,
    fun memo goal execution c d hNew => peek?_insert_eq_some_iff hNew execution,
    fun batch => ⟨fun c h => exists_first_alike h, pairwise_firsts batch⟩, ?_⟩
  · exact fun h => hc.sameTests hd (fingerprint_eq_iff.mpr h)
  · exact fun h => fingerprint_eq_iff.mp h.fingerprint_eq
  · intro size candidates c roster hRoom
    exact members_add_iff ((Roster.fits_nil size).addAll candidates).1 hRoom c

def unaryCall (function : String) (arg : Int64) : InputVector :=
  ⟨function, [arg], 0, 9⟩

/-- Two calls of a function in either order are told apart. Not so the two calls and one call of a
function whose name contains the first of them: what is stored for the two is found for the one. -/
theorem shares_iff_alike_calls :
    let calls := suite [unaryCall "f" 1, unaryCall "f" 2]
    let swapped := suite [unaryCall "f" 2, unaryCall "f" 1]
    let merged := suite [unaryCall "f(1);\n\nf" 2]
    let goal := Goal.located "g" "U" "f" 1
    let roster := [calls].foldl (Roster.add 2) ⟨[], []⟩
    (calls.Plain ∧ swapped.Plain ∧ ¬calls.SameTests swapped ∧
      calls.fingerprint ≠ swapped.fingerprint) ∧
    (Memo.empty.peek? merged.fingerprint goal = none ∧ calls.Alike merged ∧
      (Memo.empty.insert calls.fingerprint goal .failed).peek? merged.fingerprint goal =
        some .failed) ∧
    calls ∈ [calls, merged] ∧
    (∃ first ∈ firsts [] (named [calls, merged]), first.2.Alike merged) ∧
    roster.members.length < 2 ∧ (roster.add 2 merged).members ≠ roster.members ++ [merged] := by
  intro calls swapped merged goal roster
  obtain ⟨hSame, hPlain, hMemo, hBatch, hRoster⟩ := shares_iff_alike (τ := InputVector)
  have hCalls : calls.Plain := ⟨by decide +kernel, by decide +kernel⟩
  have hSwapped : swapped.Plain := ⟨by decide +kernel, by decide +kernel⟩
  have hOther : ¬calls.SameTests swapped := fun h => absurd h.fingerprint_eq (by decide +kernel)
  have hMerged : calls.Alike merged := (hSame calls merged).mp (by decide +kernel)
  have hEmpty : Memo.empty.peek? merged.fingerprint goal = none := Memo.peek?_empty _ _
  have hMember : calls ∈ roster.members := by decide +kernel
  refine ⟨⟨hCalls, hSwapped, hOther, ?_⟩, ⟨hEmpty, hMerged, ?_⟩, List.mem_cons_self, ?_,
    by decide +kernel, ?_⟩
  · exact fun h => hOther ((hPlain _ _ hCalls hSwapped).mp ((hSame _ _).mp h))
  · exact (hMemo _ goal .failed calls merged hEmpty).mpr hMerged
  · exact (hBatch [calls, merged]).1 merged (by simp)
  · intro h
    exact (hRoster 2 [calls] merged (by decide +kernel)).mp h calls hMember hMerged

/-- Two suites of different length have one fingerprint. A batch of both runs only the first, and a
population takes only the first. -/
theorem exists_alike_strangers :
    ∃ c d : Chromosome InputVector, c.size = 2 ∧ d.size = 1 ∧ c.codes ≠ d.codes ∧
      c.fingerprint = d.fingerprint ∧
      (firsts [] (named [c, d])).map Prod.snd = [c] ∧
      ([c, d].foldl (Roster.add 2) ⟨[], []⟩).members = [c] := by
  refine ⟨suite [unaryCall "f" 1, unaryCall "f" 2], suite [unaryCall "f(1);\n\nf" 2], rfl, rfl, ?_⟩
  decide +kernel

end Sharing

end Chromosome

end WitnessSearch
