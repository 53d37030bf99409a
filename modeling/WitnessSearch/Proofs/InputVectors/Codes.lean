import Std.Data.String.ToInt
import WitnessSearch.Proofs.Evaluation.Faults
import WitnessSearch.Proofs.Fingerprints

/-! What the code of a call tells. The name of the function ends at the first opening parenthesis,
the arguments stand between commas, and a decimal text is that of one integer only. So function and
arguments can be read off the code, provided the name of the function has no parenthesis of its own.
If it has no line break either, there is none in the code. -/

namespace WitnessSearch

namespace InputVector

/-- The name of the function has neither an opening parenthesis nor a line break. -/
structure Legible (vector : InputVector) : Prop where
  unopened : '(' ∉ vector.function.toList
  unbroken : '\n' ∉ vector.function.toList

/-- Two vectors call one function with the same arguments. Their bounds may differ. -/
structure SameCall (a b : InputVector) : Prop where
  function : a.function = b.function
  args : a.args = b.args

section Texts

/-- A number is written as its sign, if it has one, and the decimal digits of its size. -/
theorem toList_repr (i : Int) :
    i.repr.toList = (if 0 ≤ i then [] else ['-']) ++ Nat.toDigits 10 i.natAbs := by
  rw [Int.repr_eq_if]
  split
  · have hSize : i.toNat = i.natAbs := by omega
    rw [Nat.toList_repr, hSize, List.nil_append]
  · have hSize : (-i).toNat = i.natAbs := by omega
    rw [String.toList_append, Nat.toList_repr, hSize]
    rfl

theorem repr_ne_nil (i : Int) : i.repr.toList ≠ [] := by
  rw [toList_repr]
  exact List.append_ne_nil_of_right_ne_nil _ Nat.toDigits_ne_nil

/-- A written number has digits and a sign, and so neither a comma nor a parenthesis. -/
theorem isDigit_of_mem_repr {i : Int} {c : Char} (h : c ∈ i.repr.toList) :
    c.isDigit = true ∨ c = '-' := by
  rw [toList_repr] at h
  rcases List.mem_append.mp h with hSign | hDigits
  · split at hSign
    · cases hSign
    · exact .inr (List.mem_singleton.mp hSign)
  · exact .inl (Nat.isDigit_of_mem_toDigits (by decide) (by decide) hDigits)

def argTexts (args : List Int64) : List (List Char) :=
  args.map fun arg => arg.toInt.repr.toList

/-- Different arguments are written differently. -/
theorem argTexts_injective : Function.Injective argTexts := by
  refine List.map_injective_iff.mpr fun arg other h => ?_
  exact Int64.toInt_inj.mp (Int.repr_injective (String.toList_inj.mp h))

/-- An argument has a text without the comma that separates it from the next. -/
theorem separable_of_mem_argTexts {args : List Int64} {text : List Char}
    (h : text ∈ argTexts args) : text ≠ [] ∧ ',' ∉ text := by
  obtain ⟨arg, -, rfl⟩ := List.mem_map.mp h
  refine ⟨repr_ne_nil _, fun hComma => ?_⟩
  rcases isDigit_of_mem_repr hComma with hDigit | hMinus
  · exact absurd hDigit (by decide)
  · exact absurd hMinus (by decide)

theorem toList_code (vector : InputVector) :
    vector.code.toList = vector.function.toList ++
      '(' :: ([',', ' '].intercalate (argTexts vector.args) ++ [')', ';']) := by
  simp [code, argTexts, String.toList_intercalate, Function.comp_def]

end Texts

variable {a b vector : InputVector}

/-- The code of a call tells its function and its arguments and nothing else. -/
theorem code_eq_iff (ha : a.Legible) (hb : b.Legible) : a.code = b.code ↔ a.SameCall b := by
  constructor
  · intro h
    rw [← String.toList_inj, toList_code, toList_code] at h
    have hOpen : ∀ rest : List Char, ∀ c ∈ ('(' :: rest).head?, c = '(' :=
      fun _ _ hc => (Option.some.inj hc).symm
    obtain ⟨hFunction, hRest⟩ :=
      append_inj_of_notMem ha.unopened hb.unopened (hOpen _) (hOpen _) h
    have hTexts := List.append_cancel_right (List.cons.inj hRest).2
    have hArgs := eq_of_intercalate_eq (fun _ => separable_of_mem_argTexts)
      (fun _ => separable_of_mem_argTexts) hTexts
    exact ⟨String.toList_inj.mp hFunction, argTexts_injective hArgs⟩
  · rintro ⟨hFunction, hArgs⟩
    rw [code, code, hFunction, hArgs]

/-- There is no line break in the code of a call. -/
theorem Legible.newline_notMem (h : vector.Legible) : '\n' ∉ vector.code.toList := by
  intro hMem
  rw [toList_code] at hMem
  rcases List.mem_append.mp hMem with hFunction | hCall
  · exact h.unbroken hFunction
  · rcases List.mem_cons.mp hCall with hOpen | hRest
    · exact absurd hOpen (by decide)
    · rcases List.mem_append.mp hRest with hArgs | hClose
      · rcases mem_intercalate hArgs with hSeparator | ⟨text, hText, hNewline⟩
        · exact absurd hSeparator (by decide)
        · obtain ⟨arg, -, rfl⟩ := List.mem_map.mp hText
          exact absurd (isDigit_of_mem_repr hNewline) (by decide)
      · exact absurd hClose (by decide)

/-- Lists of tests have the same codes exactly if they make the same calls one by one. -/
theorem map_code_eq_iff {as bs : List InputVector} (ha : ∀ a ∈ as, a.Legible)
    (hb : ∀ b ∈ bs, b.Legible) : as.map code = bs.map code ↔ List.Forall₂ SameCall as bs := by
  induction as generalizing bs with
  | nil =>
      cases bs with
      | nil => exact ⟨fun _ => .nil, fun _ => rfl⟩
      | cons b bs => exact ⟨nofun, nofun⟩
  | cons a as ih =>
      cases bs with
      | nil => exact ⟨nofun, nofun⟩
      | cons b bs =>
          obtain ⟨hFirst, hRest⟩ := List.forall_mem_cons.mp ha
          obtain ⟨hFirst', hRest'⟩ := List.forall_mem_cons.mp hb
          rw [List.map_cons, List.map_cons, List.cons.injEq, List.forall₂_cons,
            code_eq_iff hFirst hFirst', ih hRest hRest']

end InputVector

theorem unbroken_of_notMem {text : List Char} (h : '\n' ∉ text) : Unbroken text := by
  intro hBlankLine
  have hCount := hBlankLine.sublist.count_le '\n'
  rw [List.count_append, List.count_eq_zero_of_not_mem h] at hCount
  exact absurd hCount (by decide)

namespace Chromosome

/-- Two candidates of one kind that make the same calls in the same order. -/
inductive SameCalls : Chromosome InputVector → Chromosome InputVector → Prop
  | single {a b : InputVector} (h : a.SameCall b) : SameCalls (.single a) (.single b)
  | suite {as bs : List InputVector} (h : List.Forall₂ InputVector.SameCall as bs) :
      SameCalls (.suite as) (.suite bs)

variable {c d : Chromosome InputVector}

/-- A call does not pass for a suite, since its code has one line. -/
theorem plain_of_legible (h : c.Wholly InputVector.Legible) : c.Plain := by
  cases c with
  | single test =>
      intro body hFrame
      have hCode : test.code = frame body := hFrame
      refine (h test (List.mem_singleton_self test)).newline_notMem ?_
      rw [hCode]
      simp [frame]
  | suite tests =>
      constructor
      · intro code hCode
        obtain ⟨test, hTest, rfl⟩ := List.mem_map.mp hCode
        exact unbroken_of_notMem (h test hTest).newline_notMem
      · intro hEmpty
        obtain ⟨test, -, hCode⟩ := List.mem_map.mp (hEmpty ▸ List.mem_singleton_self "")
        have hText := test.toList_code
        rw [show test.code = "" from hCode] at hText
        exact absurd hText.symm (List.append_ne_nil_of_right_ne_nil _ (List.cons_ne_nil _ _))

/-- Among legible chromosomes, having the same tests is making the same calls. -/
theorem sameTests_iff_sameCalls (hc : c.Wholly InputVector.Legible)
    (hd : d.Wholly InputVector.Legible) : c.SameTests d ↔ c.SameCalls d := by
  cases c with
  | single a =>
      cases d with
      | single b =>
          have hCode := InputVector.code_eq_iff (hc a (List.mem_singleton_self a))
            (hd b (List.mem_singleton_self b))
          exact ⟨fun | .single h => .single (hCode.mp h), fun | .single h => .single (hCode.mpr h)⟩
      | suite bs => exact ⟨nofun, nofun⟩
  | suite as =>
      cases d with
      | single b => exact ⟨nofun, nofun⟩
      | suite bs =>
          have hCodes := InputVector.map_code_eq_iff hc hd
          exact ⟨fun | .suite h => .suite (hCodes.mp h), fun | .suite h => .suite (hCodes.mpr h)⟩

/-- Candidates made of calls have one fingerprint exactly if they are of one kind and make the same
calls in the same order: as many, with the same functions and the same arguments. The bounds of the
calls do not take part. -/
theorem fingerprint_eq_iff_sameCalls (hc : c.Wholly InputVector.Legible)
    (hd : d.Wholly InputVector.Legible) : c.fingerprint = d.fingerprint ↔ c.SameCalls d := by
  rw [← sameTests_iff_sameCalls hc hd]
  exact ⟨(plain_of_legible hc).sameTests (plain_of_legible hd), SameTests.fingerprint_eq⟩

/-- A call of `f` and a call of `g` with the given arguments. -/
def twoCalls (first second : List Int64) (low high : Int64) : Chromosome InputVector :=
  suite [⟨"f", first, low, high⟩, ⟨"g", second, low, high⟩]

/-- The suite of two calls is legible, since its functions are written with letters alone. -/
theorem legible_twoCalls (first second : List Int64) (low high : Int64) :
    (twoCalls first second low high).Wholly InputVector.Legible := by
  intro test hTest
  rcases List.mem_pair.mp hTest with rfl | rfl <;> exact ⟨by simp, by simp⟩

/-- Other bounds do not matter, but it does matter which call an argument belongs to. -/
theorem fingerprint_eq_iff_sameCalls_moved :
    (twoCalls [Int64.minValue, -1] [] 0 9).fingerprint =
      (twoCalls [Int64.minValue, -1] [] (-5) 5).fingerprint ∧
    (twoCalls [Int64.minValue, -1] [] 0 9).fingerprint ≠
      (twoCalls [Int64.minValue] [-1] 0 9).fingerprint := by
  have hRebound := fingerprint_eq_iff_sameCalls (legible_twoCalls [Int64.minValue, -1] [] 0 9)
    (legible_twoCalls [Int64.minValue, -1] [] (-5) 5)
  have hMoved := fingerprint_eq_iff_sameCalls (legible_twoCalls [Int64.minValue, -1] [] 0 9)
    (legible_twoCalls [Int64.minValue] [-1] 0 9)
  refine ⟨hRebound.mpr (.suite (.cons ⟨rfl, rfl⟩ (.cons ⟨rfl, rfl⟩ .nil))), fun h => ?_⟩
  cases hMoved.mp h with
  | suite hCalls =>
      cases hCalls with
      | cons hFirst _ => exact absurd hFirst.args (by decide)

end Chromosome

end WitnessSearch
