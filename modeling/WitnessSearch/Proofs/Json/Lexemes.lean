import WitnessSearch.Proofs.Json.Numerals

/-! What is written is read token by token. A text spells tokens if reading it, whatever comes after
it, yields these tokens and goes on with what comes after. Texts that spell tokens can be put
together, with blanks between them. -/

namespace WitnessSearch.Token

section Strings

/-- The piece that an escaped character is read as. -/
def pieceOf (c : Char) : Piece :=
  if c.toNat < 0x20 ∧ c ≠ '\x08' ∧ c ≠ '\t' ∧ c ≠ '\n' ∧ c ≠ '\x0c' ∧ c ≠ '\r' then .code c.toNat
  else .char c

theorem unit?_hexDigit : ∀ value < 0x20,
    unit? '0' '0' (Json.hexDigit (value / 16)) (Json.hexDigit value) = some value := by
  decide

/-- A character that needs no escape is a piece by itself. -/
theorem pieces_of_plain {c : Char} (hQuote : c ≠ '"') (hBackslash : c ≠ '\\')
    (hControl : ¬c.toNat < 0x20) (rest : List Char) :
    pieces (c :: rest) = (do
      let (later, rest) ← pieces rest
      return (.char c :: later, rest)) := by
  rw [pieces.eq_def]
  split
  · cases ‹c :: rest = []›
  · cases ‹c :: rest = _›
    exact absurd rfl hQuote
  · cases ‹c :: rest = _›
    exact absurd rfl hBackslash
  · cases ‹c :: rest = _›
    exact absurd rfl hBackslash
  · rename_i heq
    cases heq
    rw [if_neg (not_or.mpr ⟨hControl, hBackslash⟩)]

/-- A backslash with a letter is the piece that the letter stands for. -/
theorem pieces_of_escaped {letter c : Char} (hLetter : letter ≠ 'u') (h : escaped? letter = some c)
    (rest : List Char) :
    pieces ('\\' :: letter :: rest) = (do
      let (later, rest) ← pieces rest
      return (.char c :: later, rest)) := by
  rw [pieces.eq_def]
  split
  · cases ‹_ = []›
  · rename_i heq
    cases heq
  · rename_i heq
    cases heq
    exact absurd rfl hLetter
  · rename_i heq
    cases heq
    rw [h]
    rfl
  · rename_i hNone heq
    cases heq
    exact (hNone _ _ rfl rfl).elim

/-- An escape of four digits is a piece with their value. It may be half of a pair, so no character
is made of it yet. -/
theorem pieces_of_unit {a b c d : Char} {value : Nat} (h : unit? a b c d = some value)
    (rest : List Char) :
    pieces ('\\' :: 'u' :: a :: b :: c :: d :: rest) = (do
      let (later, rest) ← pieces rest
      return (.code value :: later, rest)) := by
  rw [pieces.eq_def]
  simp only [h]
  rfl

/-- An escaped character is read as one piece. The letters of the named escapes are no units. -/
theorem pieces_escape_append (c : Char) (rest : List Char) :
    pieces (Json.escape c ++ rest) = (do
      let (later, rest) ← pieces rest
      return (pieceOf c :: later, rest)) := by
  unfold Json.escape
  iterate 7
    split
    · subst c
      exact pieces_of_escaped (by decide) rfl rest
  split
  · rename_i hControl
    simp only [List.cons_append, List.nil_append]
    rw [pieces_of_unit (unit?_hexDigit c.toNat hControl)]
    simp_all [pieceOf]
  · rename_i hPlain
    rw [List.singleton_append, pieces_of_plain ‹_› ‹_› hPlain, pieceOf,
      if_neg fun h => hPlain h.1]

/-- Every text is found again behind its escapes, up to the closing quote. -/
theorem pieces_flatMap_escape (text rest : List Char) :
    pieces (text.flatMap Json.escape ++ '"' :: rest) = some (text.map pieceOf, rest) := by
  induction text with
  | nil => rfl
  | cons c text ih =>
      rw [List.flatMap_cons, List.append_assoc, pieces_escape_append, ih]
      rfl

/-- No escape is needed for half of a surrogate pair. -/
theorem joinPieces_map_pieceOf (text : List Char) :
    joinPieces none (text.map pieceOf) = some text := by
  induction text with
  | nil => rfl
  | cons c text ih =>
      rw [List.map_cons, pieceOf]
      split
      · rename_i hControl
        have hHigh : isHighSurrogate c.toNat = false := by
          simp [isHighSurrogate]
          omega
        have hLow : isLowSurrogate c.toNat = false := by
          simp [isLowSurrogate]
          omega
        simp [joinPieces, hHigh, hLow, ih]
      · simp [joinPieces, ih]

theorem first?_of_pieces {chars rest : List Char} {parts : List Piece}
    (h : pieces chars = some (parts, rest)) :
    first? ('"' :: chars) = some (.string (textOf parts), rest) := by
  change (do
    let (pieces, rest) ← pieces chars
    return (Token.string (textOf pieces), rest)) = _
  rw [h]
  rfl

/-- Quoted text is read as one token, and what is behind it is left. -/
theorem first?_quote (text : String) (rest : List Char) :
    first? ((Json.quote (some text)).toList ++ rest) = some (.string (some text), rest) := by
  have hQuote : (Json.quote (some text)).toList ++ rest =
      '"' :: (text.toList.flatMap Json.escape ++ '"' :: rest) := by
    simp [Json.quote]
  rw [hQuote, first?_of_pieces (pieces_flatMap_escape text.toList rest)]
  simp [textOf, joinPieces_map_pieceOf]

end Strings

section Scanning

/-- The tokens that are read from a text, blanks between them being passed over. -/
inductive Scans : List Char → List Token → Prop where
  | done {chars : List Char} (blank : chars.dropWhile isBlank = []) : Scans chars []
  | token {chars lexeme rest : List Char} {token : Token} {later : List Token}
      (behind : chars.dropWhile isBlank = lexeme ++ rest) (nonempty : lexeme ≠ [])
      (first : first? (lexeme ++ rest) = some (token, rest)) (rest : Scans rest later) :
      Scans chars (token :: later)

/-- The number of characters is fuel enough. -/
theorem Scans.scanWithin {chars : List Char} {tokens : List Token} (h : Scans chars tokens)
    {fuel : Nat} (hFuel : chars.length ≤ fuel) (done : List Token) :
    Token.scanWithin fuel chars done = some (done.reverse ++ tokens) := by
  induction h generalizing fuel done with
  | @done chars blank =>
      cases fuel with
      | zero =>
          rw [List.length_eq_zero_iff.mp (Nat.le_zero.mp hFuel)]
          simp [Token.scanWithin]
      | succ fuel => simp [Token.scanWithin, blank]
  | @token chars lexeme rest token later behind nonempty first _ ih =>
      have hDropped : (lexeme ++ rest).length ≤ chars.length :=
        behind ▸ (List.dropWhile_sublist _).length_le
      have hLexeme := List.length_pos_iff.mpr nonempty
      rw [List.length_append] at hDropped
      obtain ⟨fuel, rfl⟩ : ∃ later, fuel = later + 1 := ⟨fuel - 1, by omega⟩
      obtain ⟨c, text, rfl⟩ := List.exists_cons_of_ne_nil nonempty
      have hShorter : rest.length ≤ fuel := by omega
      have hLater := ih hShorter (token :: done)
      rw [List.cons_append] at behind first
      rw [Token.scanWithin, behind]
      simpa [first] using hLater

/-- Reading the text yields the tokens, whatever comes after it, as long as no numeral goes on. -/
def Spells (text : List Char) (tokens : List Token) : Prop :=
  ∀ (rest : List Char) (later : List Token), Stops rest → Scans rest later →
    Scans (text ++ rest) (tokens ++ later)

/-- Text that spells tokens is scanned as these tokens. -/
theorem scan_of_spells {text : List Char} {tokens : List Token} (h : Spells text tokens) :
    scan text = some tokens := by
  have hScans := h [] [] stops_nil (.done rfl)
  rw [List.append_nil, List.append_nil] at hScans
  exact hScans.scanWithin (Nat.le_refl _) []

theorem spells_nil : Spells [] [] :=
  fun _ _ _ hScans => hScans

/-- Texts can be put together if no numeral at the end of the first goes on. -/
theorem Spells.append {first later : List Char} {tokens more : List Token}
    (hFirst : Spells first tokens) (hLater : Spells later more)
    (hStops : ∀ rest, Stops rest → Stops (later ++ rest)) :
    Spells (first ++ later) (tokens ++ more) := by
  intro rest last hRest hScans
  rw [List.append_assoc, List.append_assoc]
  exact hFirst _ _ (hStops rest hRest) (hLater rest last hRest hScans)

/-- Blanks in front of a text are skipped. -/
theorem Scans.blanks {blanks rest : List Char} {tokens : List Token}
    (hBlanks : ∀ c ∈ blanks, isBlank c = true) (h : Scans rest tokens) :
    Scans (blanks ++ rest) tokens := by
  have hDrop : (blanks ++ rest).dropWhile isBlank = rest.dropWhile isBlank :=
    List.dropWhile_append_of_pos hBlanks
  cases h with
  | done blank => exact .done (hDrop.trans blank)
  | token behind nonempty first later => exact .token (hDrop.trans behind) nonempty first later

theorem Spells.blanks {blanks text : List Char} {tokens : List Token}
    (hBlanks : ∀ c ∈ blanks, isBlank c = true) (h : Spells text tokens) :
    Spells (blanks ++ text) tokens := by
  intro rest later hRest hScans
  rw [List.append_assoc]
  exact (h rest later hRest hScans).blanks hBlanks

/-- A lexeme spells its token. -/
theorem spells_lexeme {c : Char} {text : List Char} {token : Token} (hBlank : isBlank c = false)
    (h : ∀ rest, Stops rest → first? (c :: text ++ rest) = some (token, rest)) :
    Spells (c :: text) [token] := by
  intro rest later hRest hScans
  refine .token ?_ (List.cons_ne_nil c text) (h rest hRest) hScans
  rw [List.cons_append, List.dropWhile_cons, hBlank]
  rfl

/-- A symbol ends with itself, so anything may come after it. -/
theorem Spells.symbol {c : Char} {text : List Char} {token : Token} {tokens : List Token}
    (h : Spells text tokens) (hBlank : isBlank c = false)
    (hSymbol : ∀ rest, first? (c :: rest) = some (token, rest)) :
    Spells (c :: text) (token :: tokens) := by
  intro rest later hRest hScans
  have hBehind : (c :: (text ++ rest)).dropWhile isBlank = [c] ++ (text ++ rest) := by
    rw [List.dropWhile_cons, hBlank]
    rfl
  exact .token hBehind (List.cons_ne_nil c []) (hSymbol (text ++ rest))
    (h rest later hRest hScans)

end Scanning

end WitnessSearch.Token
