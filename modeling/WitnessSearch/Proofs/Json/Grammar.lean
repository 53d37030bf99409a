import WitnessSearch.Proofs.Json.Documents

/-! The texts of documents. A document can be written in many ways: blanks may stand between any two
tokens, any character of a string may be given by an escape, and an exponent has a small or a
capital letter. However a document is written, its text is read as the document. -/

namespace WitnessSearch

namespace Token

abbrev Blanks (chars : List Char) : Prop :=
  ∀ c ∈ chars, isBlank c = true

/-- What stands between the quotes of a string with the given pieces. -/
inductive Quotes : List Char → List Piece → Prop where
  | nil : Quotes [] []
  | plain {c : Char} {chars : List Char} {pieces : List Piece} (quote : c ≠ '"')
      (backslash : c ≠ '\\') (control : 0x20 ≤ c.toNat) (rest : Quotes chars pieces) :
      Quotes (c :: chars) (.char c :: pieces)
  | escape {letter c : Char} {chars : List Char} {pieces : List Piece}
      (escaped : escaped? letter = some c) (rest : Quotes chars pieces) :
      Quotes ('\\' :: letter :: chars) (.char c :: pieces)
  | unit {a b c d : Char} {value : Nat} {chars : List Char} {pieces : List Piece}
      (digits : unit? a b c d = some value) (rest : Quotes chars pieces) :
      Quotes ('\\' :: 'u' :: a :: b :: c :: d :: chars) (.code value :: pieces)

/-- A string in its quotes, with blanks around it. It is no text if half of a surrogate pair is
missing. -/
inductive Names : List Char → Option String → Prop where
  | intro {before chars behind : List Char} {pieces : List Piece} (hBefore : Blanks before)
      (hBehind : Blanks behind) (quoted : Quotes chars pieces) :
      Names (before ++ ('"' :: (chars ++ ['"']) ++ behind)) (textOf pieces)

/-- A character that stands for itself in a string. -/
def isPlain (c : Char) : Bool :=
  c ≠ '"' && c ≠ '\\' && 0x20 ≤ c.toNat

theorem Quotes.plains {chars : List Char} (h : chars.all isPlain = true) :
    Quotes chars (chars.map .char) := by
  induction chars with
  | nil => exact .nil
  | cons c rest ih =>
      rw [List.all_cons, Bool.and_eq_true] at h
      obtain ⟨hPlain, hRest⟩ := h
      simp only [isPlain, Bool.and_eq_true, decide_eq_true_eq] at hPlain
      exact .plain hPlain.1.1 hPlain.1.2 hPlain.2 (ih hRest)

theorem textOf_map_char (chars : List Char) :
    textOf (chars.map .char) = some (String.ofList chars) := by
  have hJoined : joinPieces none (chars.map .char) = some chars := by
    induction chars with
    | nil => rfl
    | cons c rest ih => simp [joinPieces, ih]
  rw [textOf, hJoined]
  rfl

/-- Plain characters in quotes name themselves. -/
theorem names_plain (chars : List Char) (h : chars.all isPlain = true) :
    Names ('"' :: (chars ++ ['"'])) (some (String.ofList chars)) := by
  have hNames := Names.intro (List.forall_mem_nil _) (List.forall_mem_nil _) (Quotes.plains h)
  rw [textOf_map_char] at hNames
  simpa using hNames

/-- The pieces of a quoted text are found up to its closing quote, and what is behind the quote is
left. The induction is on how the text was quoted. -/
theorem Quotes.pieces_append {chars : List Char} {parts : List Piece} (h : Quotes chars parts)
    (rest : List Char) : pieces (chars ++ '"' :: rest) = some (parts, rest) := by
  induction h with
  | nil => rfl
  | plain hQuote hBackslash hControl _ ih =>
      rw [List.cons_append, pieces_of_plain hQuote hBackslash (Nat.not_lt.mpr hControl), ih]
      rfl
  | escape hEscaped _ ih =>
      rw [List.cons_append, List.cons_append, pieces_of_escaped ?_ hEscaped, ih]
      · rfl
      · rintro rfl
        cases hEscaped
  | unit hDigits _ ih =>
      simp only [List.cons_append]
      rw [pieces_of_unit hDigits, ih]
      rfl

/-- Blanks before a text and behind it do not change what it spells. -/
theorem Spells.padded {before text behind : List Char} {tokens : List Token}
    (hBefore : Blanks before) (hBehind : Blanks behind) (h : Spells text tokens) :
    Spells (before ++ (text ++ behind)) tokens := by
  have hEnd : Spells behind [] := by simpa using spells_nil.blanks hBehind
  have hAll := h.append hEnd fun rest hRest => Json.stops_blanks_append hBehind hRest
  rw [List.append_nil] at hAll
  exact hAll.blanks hBefore

/-- Text that names a member spells one token, with the name. -/
theorem Names.spells {text : List Char} {name : Option String} (h : Names text name) :
    Spells text [.string name] := by
  obtain @⟨before, chars, behind, parts, hBefore, hBehind, hQuoted⟩ := h
  have hString : Spells ('"' :: (chars ++ ['"'])) [.string (textOf parts)] := by
    refine spells_lexeme rfl fun rest _ => ?_
    have hText : '"' :: (chars ++ ['"']) ++ rest = '"' :: (chars ++ '"' :: rest) := by simp
    rw [hText]
    exact first?_of_pieces (hQuoted.pieces_append rest)
  exact hString.padded hBefore hBehind

end Token

namespace Json

open Token

/-- A member of an object with its text. -/
structure MemberText where
  /-- The text before the colon. -/
  naming : List Char
  name : Option String
  /-- The text behind the colon. -/
  valued : List Char
  value : Json

def MemberText.text (member : MemberText) : List Char :=
  member.naming ++ ':' :: member.valued

/-- A text of a document. -/
inductive Written : List Char → Json → Prop where
  | null : Written "null".toList .null
  | bool (value : Bool) : Written (if value then "true" else "false").toList (.bool value)
  | number {letter : Char} {numeral : Numeral} (wellFormed : numeral.WellFormed)
      (marks : Numeral.MarksExponent letter) : Written (numeral.textWith letter) (.number numeral)
  | string {text : List Char} {name : Option String} (named : Names text name) :
      Written text (.string name)
  | array {behind : List Char} (elements : List (List Char × Json)) (hBehind : Blanks behind)
      (written : ∀ element ∈ elements, Written element.1 element.2) :
      Written ('[' :: ([','].intercalate (elements.map Prod.fst) ++ (behind ++ [']'])))
        (.array (elements.map Prod.snd))
  | object {behind : List Char} (members : List MemberText) (hBehind : Blanks behind)
      (named : ∀ member ∈ members, Names member.naming member.name)
      (written : ∀ member ∈ members, Written member.valued member.value) :
      Written ('{' :: ([','].intercalate (members.map (·.text)) ++ (behind ++ ['}'])))
        (.object (members.map fun member => (member.name, member.value)))
  | padded {before text behind : List Char} {document : Json} (hBefore : Blanks before)
      (hBehind : Blanks behind) (written : Written text document) :
      Written (before ++ (text ++ behind)) document

theorem Written.spaced {text : List Char} {document : Json} (h : Written text document) :
    Written (' ' :: text) document := by
  have hBlank : Blanks [' '] := List.forall_mem_singleton.mpr rfl
  have hPadded := h.padded hBlank (List.forall_mem_nil _)
  rwa [List.append_nil] at hPadded

/-- A member spells its name, a colon and its value. -/
theorem MemberText.spells {member : MemberText} (hName : Names member.naming member.name)
    (hValue : Spells member.valued member.value.tokens) :
    Spells member.text (.string member.name :: .colon :: member.value.tokens) := by
  have hColon : Spells (':' :: member.valued) (.colon :: member.value.tokens) :=
    hValue.symbol rfl fun _ => rfl
  exact hName.spells.append hColon fun _ _ => stops_cons _ (by decide)

/-- Text that is written for a document by the grammar spells the tokens of the document. The
induction is on the derivation, with the blanks of every level left out. -/
theorem Written.spells {text : List Char} {document : Json} (h : Written text document) :
    Spells text document.tokens := by
  induction h with
  | null => exact spells_null
  | bool value => exact spells_bool value
  | number wellFormed marks => exact spells_number wellFormed marks
  | string named => exact named.spells
  | padded hBefore hBehind _ ih => exact ih.padded hBefore hBehind
  | array elements hBehind _ ih =>
      have hParts : List.Forall₂ Spells (elements.map Prod.fst)
          (elements.map fun element => element.2.tokens) :=
        List.forall₂_map_left_iff.mpr (List.forall₂_map_right_iff.mpr (List.forall₂_same.mpr ih))
      have hAll := spells_between symbol_openArray symbol_closeArray closes_array hBehind hParts
      rw [tokens, elementTokens_eq_map, List.map_map]
      simpa [Function.comp_def] using hAll
  | object members hBehind named _ ih =>
      have hParts : List.Forall₂ Spells (members.map (·.text))
          (members.map fun member => .string member.name :: .colon :: member.value.tokens) :=
        List.forall₂_map_left_iff.mpr (List.forall₂_map_right_iff.mpr (List.forall₂_same.mpr
          fun member hMem => MemberText.spells (named member hMem) (ih member hMem)))
      have hAll := spells_between symbol_openObject symbol_closeObject closes_object hBehind hParts
      rw [tokens, memberTokens_eq_map, List.map_map]
      simpa [Function.comp_def] using hAll

/-- However a document is written, its text is read as the document. -/
theorem parse?_of_written {text : String} {document : Json} (h : Written text.toList document) :
    parse? text = some document :=
  parse?_of_scan (scan_of_spells h.spells)

end Json

end WitnessSearch
