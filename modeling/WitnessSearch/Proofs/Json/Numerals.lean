import Mathlib.Data.List.Basic
import WitnessSearch.Json.Token
import WitnessSearch.Json.Writer

/-! Numerals that are written are read as they were. A numeral ends where no character follows that
would go on with it, so this asks for something about what comes after it. The numerals of integers
and doubles are well formed, whatever decimal a double is written as. A double has one exactly if it
is finite. -/

namespace WitnessSearch

abbrev AllDigits (chars : List Char) : Prop :=
  ∀ c ∈ chars, c.isDigit = true

/-- A numeral as the grammar has it. -/
structure Numeral.WellFormed (numeral : Numeral) : Prop where
  isWhole : Token.isWhole numeral.whole = true
  whole : AllDigits numeral.whole
  fraction : AllDigits numeral.fraction
  exponent : ∀ sign digits, numeral.exponent = some (sign, digits) →
    digits ≠ [] ∧ AllDigits digits

namespace Token

def Stops (chars : List Char) : Prop :=
  ∀ c ∈ chars.head?, c.isDigit = false ∧ c ≠ '.' ∧ c ≠ 'e' ∧ c ≠ 'E'

theorem stops_nil : Stops [] :=
  nofun

theorem stops_cons {c : Char} (chars : List Char)
    (h : c.isDigit = false ∧ c ≠ '.' ∧ c ≠ 'e' ∧ c ≠ 'E') : Stops (c :: chars) := by
  intro d hd
  cases hd
  exact h

/-- Digits are read as far as they go. -/
theorem spanDigits_append {digits rest : List Char} (h : AllDigits digits)
    (hRest : ∀ c ∈ rest.head?, c.isDigit = false) :
    spanDigits (digits ++ rest) = (digits, rest) := by
  have hStop : rest.takeWhile Char.isDigit = [] ∧ rest.dropWhile Char.isDigit = rest := by
    cases rest with
    | nil => exact ⟨rfl, rfl⟩
    | cons c rest => simp [hRest c rfl]
  rw [spanDigits, List.takeWhile_append_of_pos h, List.dropWhile_append_of_pos h, hStop.1, hStop.2,
    List.append_nil]

end Token

namespace Numeral

/-- The point and the digits behind it as they are written. -/
def fractionText (numeral : Numeral) : List Char :=
  if numeral.fraction.isEmpty then [] else '.' :: numeral.fraction

/-- An exponent may be written with a small letter or with a capital one. -/
def MarksExponent (letter : Char) : Prop :=
  letter = 'e' ∨ letter = 'E'

/-- The exponent as it is written with the given letter. -/
def exponentText (letter : Char) (numeral : Numeral) : List Char :=
  match numeral.exponent with
  | none => []
  | some (sign, digits) => letter :: (signText sign ++ digits)

/-- A numeral as it is written, behind its sign. -/
def magnitudeText (letter : Char) (numeral : Numeral) : List Char :=
  numeral.whole ++ (numeral.fractionText ++ numeral.exponentText letter)

def textWith (letter : Char) (numeral : Numeral) : List Char :=
  (if numeral.negative then ['-'] else []) ++ numeral.magnitudeText letter

theorem text_eq (numeral : Numeral) : numeral.text = numeral.textWith 'e' := by
  obtain ⟨negative, whole, fraction, exponent⟩ := numeral
  cases exponent <;> simp [text, textWith, magnitudeText, fractionText, exponentText]

variable {letter : Char} {numeral : Numeral} {rest : List Char}

theorem exponentSign_of_digit (h : ∀ c ∈ rest.head?, c.isDigit = true) :
    Token.exponentSign rest = (.unsigned, rest) := by
  unfold Token.exponentSign
  split
  · exact absurd (h '+' rfl) (by decide)
  · exact absurd (h '-' rfl) (by decide)
  · rfl

/-- The sign of an exponent is read off in front of its digits. -/
theorem exponentSign_append (sign : ExponentSign) {digits : List Char} (hDigits : digits ≠ [])
    (h : AllDigits digits) :
    Token.exponentSign (signText sign ++ (digits ++ rest)) = (sign, digits ++ rest) := by
  cases sign with
  | unsigned =>
      apply exponentSign_of_digit
      cases digits with
      | nil => exact absurd rfl hDigits
      | cons c digits =>
          intro d hd
          cases hd
          exact h c List.mem_cons_self
  | plus => rfl
  | minus => rfl

theorem exponent?_of_letter (hLetter : MarksExponent letter) (rest : List Char) :
    Token.exponent? (letter :: rest) = Token.exponentDigits? rest := by
  rcases hLetter with rfl | rfl <;> rfl

/-- The exponent of a well-formed numeral is read back, and what is behind it is left. -/
theorem exponent?_append (h : numeral.WellFormed) (hLetter : MarksExponent letter)
    (hRest : Token.Stops rest) :
    Token.exponent? (numeral.exponentText letter ++ rest) = some (numeral.exponent, rest) := by
  unfold exponentText
  split
  · rename_i hNone
    rw [hNone, List.nil_append]
    unfold Token.exponent?
    split
    · exact absurd rfl (hRest 'e' rfl).2.2.1
    · exact absurd rfl (hRest 'E' rfl).2.2.2
    · rfl
  · rename_i sign digits hSome
    obtain ⟨hNonempty, hDigits⟩ := h.exponent sign digits hSome
    rw [hSome, List.cons_append, List.append_assoc, exponent?_of_letter hLetter]
    unfold Token.exponentDigits?
    rw [exponentSign_append sign hNonempty hDigits]
    dsimp only
    rw [Token.spanDigits_append hDigits fun c hc => (hRest c hc).1]
    simp [hNonempty]

theorem head_exponentText_append (hLetter : MarksExponent letter) (hRest : Token.Stops rest) :
    ∀ c ∈ (numeral.exponentText letter ++ rest).head?, c.isDigit = false ∧ c ≠ '.' := by
  unfold exponentText
  split
  · exact fun c hc => ⟨(hRest c hc).1, (hRest c hc).2.1⟩
  · intro c hc
    cases hc
    rcases hLetter with rfl | rfl <;> decide

/-- The fraction of a well-formed numeral is read back, and the exponent is left. -/
theorem fraction?_append (h : numeral.WellFormed) (hLetter : MarksExponent letter)
    (hRest : Token.Stops rest) :
    Token.fraction? (numeral.fractionText ++ (numeral.exponentText letter ++ rest)) =
      some (numeral.fraction, numeral.exponentText letter ++ rest) := by
  have hHead : ∀ c ∈ (numeral.exponentText letter ++ rest).head?, c.isDigit = false ∧ c ≠ '.' :=
    head_exponentText_append hLetter hRest
  unfold fractionText
  split
  · rename_i hEmpty
    rw [List.nil_append, List.isEmpty_iff.mp hEmpty]
    unfold Token.fraction?
    split
    · rename_i heq
      rw [heq] at hHead
      exact absurd rfl (hHead '.' rfl).2
    · rfl
  · rename_i hSome
    have hSpan := Token.spanDigits_append h.fraction fun c hc => (hHead c hc).1
    rw [List.cons_append]
    simp only [Token.fraction?, hSpan, if_neg hSome]

theorem head_behind_whole (hLetter : MarksExponent letter) (hRest : Token.Stops rest) :
    ∀ c ∈ (numeral.fractionText ++ (numeral.exponentText letter ++ rest)).head?,
      c.isDigit = false := by
  unfold fractionText
  split
  · exact fun c hc => (head_exponentText_append hLetter hRest c hc).1
  · intro c hc
    cases hc
    decide

/-- A well-formed numeral is read back from its text, up to where something else begins. Its sign is
read before. -/
theorem numeral?_append (h : numeral.WellFormed) (hLetter : MarksExponent letter)
    (hRest : Token.Stops rest) :
    Token.numeral? numeral.negative (numeral.magnitudeText letter ++ rest) =
      some (numeral, rest) := by
  unfold Token.numeral? magnitudeText
  rw [List.append_assoc, List.append_assoc,
    Token.spanDigits_append h.whole (head_behind_whole hLetter hRest)]
  simp [h.isWhole, fraction?_append h hLetter hRest, exponent?_append h hLetter hRest]

/-- What begins with a digit is read as a numeral. -/
theorem first?_of_digit {c : Char} (h : c.isDigit = true) (rest : List Char) :
    Token.first? (c :: rest) = (do
      let (numeral, rest) ← Token.numeral? false (c :: rest)
      return (.number numeral, rest)) := by
  unfold Token.first?
  split
  all_goals first
    | rfl
    | rename_i heq
      cases heq
      exact absurd h (by decide)

/-- A well-formed numeral is read as it was written. -/
theorem first?_textWith_append (h : numeral.WellFormed) (hLetter : MarksExponent letter)
    (hRest : Token.Stops rest) :
    Token.first? (numeral.textWith letter ++ rest) = some (.number numeral, rest) := by
  have hRead := numeral?_append h hLetter hRest
  rw [textWith, List.append_assoc]
  cases hSign : numeral.negative with
  | true =>
      rw [hSign] at hRead
      change (do
        let (numeral, rest) ← Token.numeral? true (numeral.magnitudeText letter ++ rest)
        return (Token.number numeral, rest)) = _
      rw [hRead]
      rfl
  | false =>
      rw [hSign] at hRead
      have hWhole : numeral.whole ≠ [] := by
        rintro hNone
        have := h.isWhole
        rw [hNone] at this
        cases this
      obtain ⟨c, digits, hDigits⟩ := List.exists_cons_of_ne_nil hWhole
      have hDigit : c.isDigit = true := h.whole c (by rw [hDigits]; exact List.mem_cons_self)
      have hHead : ([] : List Char) ++ (numeral.magnitudeText letter ++ rest) =
          c :: (digits ++ (numeral.fractionText ++ numeral.exponentText letter) ++ rest) := by
        simp [magnitudeText, hDigits]
      have hSame : numeral.magnitudeText letter ++ rest =
          c :: (digits ++ (numeral.fractionText ++ numeral.exponentText letter) ++ rest) := hHead
      simp only [Bool.false_eq_true, if_false]
      rw [hHead, first?_of_digit hDigit, ← hSame, hRead]
      rfl

section Written

theorem allDigits_toDigits (value : Nat) : AllDigits (Nat.toDigits 10 value) :=
  fun _ hc => Nat.isDigit_of_mem_toDigits (by decide) (by decide) hc

theorem head_toDigits_ne_zero {value : Nat} (h : value ≠ 0) :
    (Nat.toDigits 10 value).head? ≠ some '0' := by
  induction value using Nat.strongRecOn with
  | ind value ih =>
      rw [Nat.toDigits_eq_if (by decide)]
      split
      · rename_i hSmall
        have hDigit : ∀ digit < 10, digit ≠ 0 → Nat.digitChar digit ≠ '0' := by decide
        simpa using hDigit value hSmall h
      · rename_i hLarge
        have hShorter := ih (value / 10) (by omega) (by omega)
        rwa [List.head?_append_of_ne_nil _ Nat.toDigits_ne_nil]

theorem isWhole_of_head {digits : List Char} (hDigits : digits ≠ [])
    (h : digits.head? ≠ some '0') : Token.isWhole digits = true := by
  unfold Token.isWhole
  split
  · exact absurd rfl hDigits
  · rfl
  · exact absurd rfl h
  · rfl

theorem isWhole_toDigits (value : Nat) : Token.isWhole (Nat.toDigits 10 value) = true := by
  by_cases hZero : value = 0
  · rw [hZero, Nat.toDigits_zero]
    rfl
  · exact isWhole_of_head Nat.toDigits_ne_nil (head_toDigits_ne_zero hZero)

/-- The numeral of a natural number has no leading zero, unless it is zero. -/
theorem wellFormed_ofNat (value : Nat) : (Numeral.ofNat value).WellFormed where
  isWhole := isWhole_toDigits value
  whole := allDigits_toDigits value
  fraction := nofun
  exponent := nofun

/-- A natural number is what its numeral stands for. -/
theorem toInt?_ofNat (value : Nat) : (Numeral.ofNat value).toInt? = some (value : Int) := by
  simp [Numeral.ofNat, Numeral.toInt?, Numeral.digitsValue]

theorem isWhole_singleton (c : Char) : Token.isWhole [c] = true := by
  by_cases hZero : c = '0'
  · rw [hZero]
    rfl
  · exact isWhole_of_head (List.cons_ne_nil _ _) (by simpa using hZero)

theorem isWhole_append_digits {value : Nat} (h : value ≠ 0) (more : List Char) :
    Token.isWhole (Nat.toDigits 10 value ++ more) = true := by
  apply isWhole_of_head
  · simp
  · rw [List.head?_append_of_ne_nil _ Nat.toDigits_ne_nil]
    exact head_toDigits_ne_zero h

/-- A beginning of more than one digit does not begin with a zero. -/
theorem isWhole_take_digits {value count : Nat} (hCount : count ≠ 0)
    (h : count < (Nat.toDigits 10 value).length) :
    Token.isWhole ((Nat.toDigits 10 value).take count) = true := by
  have hValue : value ≠ 0 := by
    rintro rfl
    rw [Nat.toDigits_zero, List.length_singleton] at h
    omega
  apply isWhole_of_head
  · rw [Ne, List.take_eq_nil_iff]
    simp [hCount]
  · rw [List.head?_take, if_neg hCount]
    exact head_toDigits_ne_zero hValue

theorem allDigits_append {first later : List Char} (hFirst : AllDigits first)
    (hLater : AllDigits later) : AllDigits (first ++ later) := by
  intro c hc
  exact (List.mem_append.mp hc).elim (hFirst c) (hLater c)

theorem allDigits_zeros (count : Nat) : AllDigits (List.replicate count '0') := by
  intro c hc
  rw [List.eq_of_mem_replicate hc]
  rfl

/-- A decimal without an exponent has digits on both sides of its point, if there is one. -/
theorem positional_spec (decimal : Decimal) :
    Token.isWhole decimal.positional.1 = true ∧ AllDigits decimal.positional.1 ∧
      AllDigits decimal.positional.2 := by
  have hDigits := allDigits_toDigits decimal.coefficient
  unfold Decimal.positional
  simp only [Decimal.digits]
  split
  · split
    · exact ⟨rfl, List.forall_mem_singleton.mpr rfl, nofun⟩
    · rename_i hValue
      exact ⟨isWhole_append_digits hValue _, allDigits_append hDigits (allDigits_zeros _), nofun⟩
  · rename_i hNegative
    generalize hAfter : (-decimal.exponent).toNat = after
    have hPadded := allDigits_append
      (allDigits_zeros (after + 1 - (Nat.toDigits 10 decimal.coefficient).length)) hDigits
    refine ⟨?_, fun c hc => hPadded c (List.mem_of_mem_take hc),
      fun c hc => hPadded c (List.mem_of_mem_drop hc)⟩
    by_cases hLength : (Nat.toDigits 10 decimal.coefficient).length ≤ after
    · -- Zeros fill up to one place before the point.
      obtain ⟨zeros, hZeros⟩ : ∃ zeros,
          after + 1 - (Nat.toDigits 10 decimal.coefficient).length = zeros + 1 :=
        ⟨after - (Nat.toDigits 10 decimal.coefficient).length, by omega⟩
      have hOne : (List.replicate (zeros + 1) '0' ++
          Nat.toDigits 10 decimal.coefficient).length - after = 1 := by
        rw [List.length_append, List.length_replicate]
        omega
      rw [hZeros, hOne]
      rfl
    · have hNone : after + 1 - (Nat.toDigits 10 decimal.coefficient).length = 0 := by omega
      rw [hNone, List.replicate_zero, List.nil_append]
      exact isWhole_take_digits (by omega) (by omega)

/-- The numeral of a decimal is well formed, with or without an exponent. -/
theorem wellFormed_ofDecimal (negative : Bool) (decimal : Decimal) :
    (Numeral.ofDecimal negative decimal).WellFormed := by
  have hDigits := allDigits_toDigits decimal.coefficient
  obtain ⟨hWhole, hBefore, hAfter⟩ := positional_spec decimal
  have hShown : AllDigits (if decimal.positional.2.isEmpty then ['0'] else decimal.positional.2) := by
    split
    · exact List.forall_mem_singleton.mpr rfl
    · exact hAfter
  unfold Numeral.ofDecimal
  dsimp only
  split
  · exact ⟨hWhole, hBefore, hShown, nofun⟩
  · refine ⟨?_, fun c hc => hDigits c (List.mem_of_mem_take hc),
      fun c hc => hDigits c (List.mem_of_mem_drop hc), ?_⟩
    · obtain ⟨c, rest, hFirst⟩ := List.exists_cons_of_ne_nil
        (Nat.toDigits_ne_nil : Nat.toDigits 10 decimal.coefficient ≠ [])
      simp only [Decimal.digits, hFirst, List.take_succ_cons, List.take_zero]
      exact isWhole_singleton c
    · rintro sign digits hExponent
      cases hExponent
      exact ⟨Nat.toDigits_ne_nil, allDigits_toDigits _⟩

/-- The numeral of a double is well formed. -/
theorem wellFormed_of_ofFloat? {value : Float} {numeral : Numeral}
    (h : Numeral.ofFloat? value = some numeral) : numeral.WellFormed := by
  unfold Numeral.ofFloat? at h
  split at h
  · cases h
    exact wellFormed_ofDecimal _ _
  · cases h

end Written

end Numeral

open Float.Model

namespace Binary64

/-- The exponent of a double as it is stored. -/
abbrev storedExponent (bits : UInt64) : BitVec 11 :=
  @UnpackedFloat.unpackExponent Format.binary64 bits.toBitVec

theorem field_eq (bits : UInt64) :
    ((bits >>> 52) &&& 0x7ff).toNat = (storedExponent bits).toNat := by
  have hMask : bits.toNat >>> 52 &&& 2047 = (bits.toNat >>> 52) % 2 ^ 11 :=
    Nat.and_two_pow_sub_one_eq_mod _ 11
  simp [storedExponent, UnpackedFloat.unpackExponent, BitVec.extractLsb_toNat, hMask]

/-- Only the greatest stored exponent does not belong to a number. -/
theorem isFinite_iff (value : Float) :
    value.isFinite = true ↔ (storedExponent value.toBits).toNat ≠ 0x7ff := by
  have hTop : storedExponent value.toBits = -1#_ ↔ (storedExponent value.toBits).toNat = 0x7ff := by
    rw [← BitVec.toNat_inj]
    rfl
  rw [Ne, ← hTop]
  change (UnpackedFloat.unpack Format.binary64 value.toBits.toBitVec).isFinite = true ↔ _
  by_cases hInfinite : storedExponent value.toBits = -1#_
  · refine iff_of_false ?_ fun h => h hInfinite
    unfold UnpackedFloat.unpack
    rw [if_pos hInfinite, apply_ite UnpackedFloat.isFinite]
    exact ne_of_eq_of_ne (ite_self false) Bool.false_ne_true
  · refine iff_of_true ?_ hInfinite
    unfold UnpackedFloat.unpack
    rw [if_neg hInfinite, apply_ite UnpackedFloat.isFinite,
      apply_dite UnpackedFloat.isFinite]
    change (if _ then if _ : _ then true else true else true) = true
    rw [dite_eq_ite, ite_self, ite_self]

end Binary64

/-- Exactly the finite doubles have a numeral. The others are written as `null` for want of one. -/
theorem Numeral.isSome_ofFloat? (value : Float) :
    (Numeral.ofFloat? value).isSome = value.isFinite := by
  rw [Bool.eq_iff_iff, Binary64.isFinite_iff, ← Binary64.field_eq]
  unfold Numeral.ofFloat? Binary64.ofFloat Binary64.ofBits
  dsimp only
  by_cases hField : ((value.toBits >>> 52) &&& 0x7ff).toNat = 0x7ff
  · rw [if_pos hField]
    split
    · rename_i heq
      split at heq <;> cases heq
    · exact iff_of_false Bool.false_ne_true fun h => h hField
  · rw [if_neg hField]
    split
    · exact iff_of_true rfl hField
    · rename_i hOther
      split at hOther <;> simp at hOther

end WitnessSearch
