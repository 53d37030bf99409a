import WitnessSearch.Json.Reader
import WitnessSearch.Proofs.Json.Lexemes
import WitnessSearch.Proofs.Lists

/-! Either form of a document is read as the document. First, the text spells the tokens of the
document, and second, a reader that takes these tokens ends with the document. -/

namespace WitnessSearch.Json

open Token

/-- A document as it is made to be written: its numerals are well formed, and all of its strings and
keys are texts. -/
inductive Readable : Json → Prop where
  | null : Readable .null
  | bool (value : Bool) : Readable (.bool value)
  | number {numeral : Numeral} (wellFormed : numeral.WellFormed) : Readable (.number numeral)
  | string (text : String) : Readable (.string (some text))
  | array {elements : List Json} (readable : ∀ element ∈ elements, Readable element) :
      Readable (.array elements)
  | object {members : List (Option String × Json)}
      (keys : ∀ member ∈ members, ∃ key, member.1 = some key)
      (readable : ∀ member ∈ members, Readable member.2) : Readable (.object members)

mutual

def tokens : Json → List Token
  | null => [.null]
  | bool value => [.bool value]
  | number numeral => [.number numeral]
  | string text => [.string text]
  | array elements => .openArray :: ([.comma].intercalate (elementTokens elements) ++ [.closeArray])
  | object members => .openObject :: ([.comma].intercalate (memberTokens members) ++ [.closeObject])

def elementTokens : List Json → List (List Token)
  | [] => []
  | element :: rest => tokens element :: elementTokens rest

def memberTokens : List (Option String × Json) → List (List Token)
  | [] => []
  | (key, value) :: rest => (.string key :: .colon :: tokens value) :: memberTokens rest

end

/-- What holds of a container if it holds of its parts holds of all documents. -/
theorem induction {property : Json → Prop} (null : property .null)
    (bool : ∀ value, property (.bool value)) (number : ∀ numeral, property (.number numeral))
    (string : ∀ text, property (.string text))
    (array : ∀ elements, (∀ element ∈ elements, property element) → property (.array elements))
    (object : ∀ members, (∀ member ∈ members, property member.2) → property (.object members))
    (document : Json) : property document :=
  @Json.rec property (fun elements => ∀ element ∈ elements, property element)
    (fun members => ∀ member ∈ members, property member.2) (fun member => property member.2)
    null bool number string array object nofun
    (fun _ _ hFirst hRest => List.forall_mem_cons.mpr ⟨hFirst, hRest⟩) nofun
    (fun _ _ hFirst hRest => List.forall_mem_cons.mpr ⟨hFirst, hRest⟩) (fun _ _ hValue => hValue)
    document

/-- The tokens of the elements are those of each of them. The definition is a recursion of its own,
as it stands beside the one for documents. -/
theorem elementTokens_eq_map (elements : List Json) :
    elementTokens elements = elements.map tokens := by
  induction elements with
  | nil => rfl
  | cons element rest ih => rw [elementTokens, ih, List.map_cons]

theorem memberTokens_eq_map (members : List (Option String × Json)) :
    memberTokens members =
      members.map fun member => .string member.1 :: .colon :: tokens member.2 := by
  induction members with
  | nil => rfl
  | cons member rest ih => rw [memberTokens, ih, List.map_cons]

section Writing

/-- Quoted text spells one token, whatever characters there are in it. -/
theorem spells_quote (text : String) :
    Spells (quote (some text)).toList [.string (some text)] := by
  have hHead : (quote (some text)).toList = '"' :: (text.toList.flatMap escape ++ ['"']) := by
    simp [quote]
  have hFirst := first?_quote text
  rw [hHead] at hFirst ⊢
  exact spells_lexeme rfl fun rest _ => hFirst rest

theorem spells_null : Spells "null".toList [.null] := by
  have hWord : "null".toList = ['n', 'u', 'l', 'l'] := by simp
  rw [hWord]
  exact spells_lexeme rfl fun _ _ => rfl

theorem spells_bool (value : Bool) :
    Spells (if value then "true" else "false").toList [.bool value] := by
  cases value with
  | true =>
      have hWord : "true".toList = ['t', 'r', 'u', 'e'] := by simp
      rw [if_pos rfl, hWord]
      exact spells_lexeme rfl fun _ _ => rfl
  | false =>
      have hWord : "false".toList = ['f', 'a', 'l', 's', 'e'] := by simp
      rw [if_neg Bool.false_ne_true, hWord]
      exact spells_lexeme rfl fun _ _ => rfl

/-- A well-formed numeral spells one token, with either letter in front of its exponent. -/
theorem spells_number {letter : Char} {numeral : Numeral} (h : numeral.WellFormed)
    (hLetter : Numeral.MarksExponent letter) :
    Spells (numeral.textWith letter) [.number numeral] := by
  have hHead : ∃ c text, numeral.textWith letter = c :: text ∧ isBlank c = false := by
    rw [Numeral.textWith, Numeral.magnitudeText]
    cases numeral.negative with
    | true => exact ⟨'-', _, rfl, rfl⟩
    | false =>
        cases hWhole : numeral.whole with
        | nil =>
            have hNone := h.isWhole
            rw [hWhole] at hNone
            cases hNone
        | cons c digits =>
            have hDigit : c.isDigit = true := h.whole c (hWhole ▸ List.mem_cons_self)
            refine ⟨c, _, rfl, ?_⟩
            by_contra hBlank
            simp only [isBlank, Bool.not_eq_false, Bool.or_eq_true, decide_eq_true_eq] at hBlank
            rcases hBlank with ((rfl | rfl) | rfl) | rfl <;> cases hDigit
  obtain ⟨c, text, hText, hBlank⟩ := hHead
  rw [hText]
  refine spells_lexeme hBlank fun rest hRest => ?_
  rw [← hText]
  exact Numeral.first?_textWith_append h hLetter hRest

theorem prettyElements_eq_map (depth : Nat) (elements : List Json) :
    prettyElements depth elements = elements.map (prettyAt depth) := by
  induction elements with
  | nil => rfl
  | cons element rest ih => rw [prettyElements, ih, List.map_cons]

theorem prettyMembers_eq_map (depth : Nat) (members : List (Option String × Json)) :
    prettyMembers depth members =
      members.map fun member => quote member.1 ++ ": " ++ prettyAt depth member.2 := by
  induction members with
  | nil => rfl
  | cons member rest ih => rw [prettyMembers, ih, List.map_cons]

/-- An indentation is nothing but blanks. -/
theorem isBlank_of_mem_indentation {depth : Nat} {c : Char} (h : c ∈ (indentation depth).toList) :
    isBlank c = true := by
  rw [indentation, String.toList_ofList, List.mem_cons] at h
  rcases h with rfl | hSpace
  · rfl
  · rw [List.eq_of_mem_replicate hSpace]
    rfl

/-- What stops a numeral still does so behind blanks. -/
theorem stops_blanks_append {blanks rest : List Char} (hBlanks : ∀ c ∈ blanks, isBlank c = true)
    (h : Stops rest) : Stops (blanks ++ rest) := by
  cases blanks with
  | nil => exact h
  | cons c more =>
      have hBlank := hBlanks c List.mem_cons_self
      refine stops_cons _ ?_
      simp only [isBlank, Bool.or_eq_true, decide_eq_true_eq] at hBlank
      rcases hBlank with ((rfl | rfl) | rfl) | rfl <;> decide

theorem spells_separated {texts : List (List Char)} {parts : List (List Token)}
    (h : List.Forall₂ Spells texts parts) :
    Spells (texts.flatMap (',' :: ·)) (parts.flatMap (.comma :: ·)) := by
  induction h with
  | nil => exact spells_nil
  | @cons text part texts parts hText _ ih =>
      have hFirst : Spells (',' :: text) (.comma :: part) := hText.symbol rfl fun _ => rfl
      refine hFirst.append ih fun rest hRest => ?_
      cases texts with
      | nil => exact hRest
      | cons next texts => exact stops_cons _ (by decide)

/-- Texts between commas spell what they spell apart from each other. -/
theorem spells_intercalated {texts : List (List Char)} {parts : List (List Token)}
    (h : List.Forall₂ Spells texts parts) :
    Spells ([','].intercalate texts) ([.comma].intercalate parts) := by
  cases h with
  | nil => exact spells_nil
  | @cons text part texts parts hText hTexts =>
      rw [intercalate_cons, intercalate_cons]
      refine hText.append (spells_separated hTexts) fun rest hRest => ?_
      cases texts with
      | nil => exact hRest
      | cons next texts => exact stops_cons _ (by decide)

/-- A text of one character that is a token by itself. -/
def Symbol (text : String) (token : Token) : Prop :=
  ∃ c, text.toList = [c] ∧ isBlank c = false ∧ ∀ rest, first? (c :: rest) = some (token, rest)

theorem symbol_openArray : Symbol "[" .openArray :=
  ⟨'[', by simp, rfl, fun _ => rfl⟩

theorem symbol_closeArray : Symbol "]" .closeArray :=
  ⟨']', by simp, rfl, fun _ => rfl⟩

theorem symbol_openObject : Symbol r"{" .openObject :=
  ⟨'{', by simp, rfl, fun _ => rfl⟩

theorem symbol_closeObject : Symbol r"}" .closeObject :=
  ⟨'}', by simp, rfl, fun _ => rfl⟩

/-- A text of one character behind which a numeral does not go on. -/
def Closes (text : String) : Prop :=
  ∀ rest, Stops (text.toList ++ rest)

theorem closes_array : Closes "]" := by
  intro rest
  have hText : "]".toList = [']'] := by simp
  rw [hText]
  exact stops_cons _ (by decide)

theorem closes_object : Closes r"}" := by
  intro rest
  have hText : r"}".toList = ['}'] := by simp
  rw [hText]
  exact stops_cons _ (by decide)

/-- A container spells its brackets and what its parts spell, whatever blanks stand behind the last
part. -/
theorem spells_between {opening closing : String} {first last : Token}
    (hOpening : Symbol opening first) (hClosing : Symbol closing last) (hCloses : Closes closing)
    {behind : List Char} (hBehind : ∀ c ∈ behind, isBlank c = true) {texts : List (List Char)}
    {parts : List (List Token)} (h : List.Forall₂ Spells texts parts) :
    Spells (opening.toList ++ ([','].intercalate texts ++ (behind ++ closing.toList)))
      (first :: ([.comma].intercalate parts ++ [last])) := by
  obtain ⟨o, hOpeningText, hOpeningBlank, hOpeningToken⟩ := hOpening
  obtain ⟨c, hClosingText, hClosingBlank, hClosingToken⟩ := hClosing
  have hEnd : Spells (behind ++ closing.toList) [last] :=
    hClosingText ▸ (spells_nil.symbol hClosingBlank hClosingToken).blanks hBehind
  have hEndStops : ∀ rest, Stops rest → Stops (behind ++ closing.toList ++ rest) := by
    intro rest _
    rw [List.append_assoc]
    exact stops_blanks_append hBehind (hCloses rest)
  rw [hOpeningText]
  exact ((spells_intercalated h).append hEnd hEndStops).symbol hOpeningBlank hOpeningToken

/-- Texts behind commas in a pair of brackets spell their parts, also with blanks before each of
them, as in indented text. -/
theorem spells_container (before behind : String) {opening closing : String} {first last : Token}
    (hBefore : ∀ c ∈ before.toList, isBlank c = true)
    (hBehind : ∀ c ∈ behind.toList, isBlank c = true) (hOpening : Symbol opening first)
    (hClosing : Symbol closing last) (hCloses : Closes closing) {texts : List String}
    {parts : List (List Token)}
    (h : List.Forall₂ (fun text part => Spells text.toList part) texts parts) :
    Spells (opening ++ String.intercalate "," (texts.map (before ++ ·)) ++ behind ++ closing).toList
      (first :: ([.comma].intercalate parts ++ [last])) := by
  have hTexts : List.Forall₂ Spells (texts.map fun text => (before ++ text).toList) parts := by
    refine List.forall₂_map_left_iff.mpr (h.imp fun text part hText => ?_)
    rw [String.toList_append]
    exact hText.blanks hBefore
  have hAll := spells_between hOpening hClosing hCloses hBehind hTexts
  simpa [String.toList_intercalate, Function.comp_def] using hAll

/-- The lines of a container. An empty one has no lines of its own. -/
theorem spells_block (depth : Nat) {opening closing : String} {first last : Token}
    (hOpening : Symbol opening first) (hClosing : Symbol closing last) (hCloses : Closes closing)
    {lines : List String} {parts : List (List Token)}
    (h : List.Forall₂ (fun line part => Spells line.toList part) lines parts) :
    Spells (block depth opening closing lines).toList
      (first :: ([.comma].intercalate parts ++ [last])) := by
  cases lines with
  | nil =>
      have hEmpty := spells_container "" "" (by simp) (by simp) hOpening hClosing hCloses h
      simpa [block] using hEmpty
  | cons line lines =>
      exact spells_container _ _ (fun _ => isBlank_of_mem_indentation)
        (fun _ => isBlank_of_mem_indentation) hOpening hClosing hCloses h

/-- A key with its colon and the value, with blanks between them or not. -/
theorem spells_member (blanks : String) (hBlanks : ∀ c ∈ blanks.toList, isBlank c = true)
    (key : String) {value : String} {part : List Token} (h : Spells value.toList part) :
    Spells (quote (some key) ++ (":" ++ blanks) ++ value).toList
      (.string (some key) :: .colon :: part) := by
  have hColon : Spells (':' :: (blanks.toList ++ value.toList)) (.colon :: part) :=
    (h.blanks hBlanks).symbol rfl fun _ => rfl
  have hText : (quote (some key) ++ (":" ++ blanks) ++ value).toList =
      (quote (some key)).toList ++ ':' :: (blanks.toList ++ value.toList) := by
    simp
  rw [hText]
  exact (spells_quote key).append hColon fun _ _ => stops_cons _ (by decide)

/-- A readable document spells its tokens at any depth of indentation. -/
theorem spells_prettyAt {document : Json} (h : document.Readable) (depth : Nat) :
    Spells (prettyAt depth document).toList document.tokens := by
  induction h generalizing depth with
  | null => exact spells_null
  | bool value => exact spells_bool value
  | @number numeral wellFormed =>
      rw [prettyAt, String.toList_ofList, Numeral.text_eq]
      exact spells_number wellFormed (.inl rfl)
  | string text => exact spells_quote text
  | @array elements _ ih =>
      rw [prettyAt, tokens, prettyElements_eq_map, elementTokens_eq_map]
      refine spells_block depth symbol_openArray symbol_closeArray closes_array ?_
      rw [List.forall₂_map_left_iff, List.forall₂_map_right_iff, List.forall₂_same]
      exact fun element hMem => ih element hMem (depth + 1)
  | @object members keys _ ih =>
      rw [prettyAt, tokens, prettyMembers_eq_map, memberTokens_eq_map]
      refine spells_block depth symbol_openObject symbol_closeObject closes_object ?_
      rw [List.forall₂_map_left_iff, List.forall₂_map_right_iff, List.forall₂_same]
      intro member hMem
      obtain ⟨key, hKey⟩ := keys member hMem
      rw [hKey]
      exact spells_member " " (by simp [isBlank]) key (ih member hMem (depth + 1))

/-- The pretty form consists of the tokens of the document. -/
theorem scan_pretty {document : Json} (h : document.Readable) :
    scan document.pretty.toList = some document.tokens :=
  scan_of_spells (spells_prettyAt h 0)

theorem compactElements_eq_map (elements : List Json) :
    compactElements elements = elements.map compact := by
  induction elements with
  | nil => rfl
  | cons element rest ih => rw [compactElements, ih, List.map_cons]

theorem compactMembers_eq_map (members : List (Option String × Json)) :
    compactMembers members =
      members.map fun member => quote member.1 ++ (":" ++ "") ++ compact member.2 := by
  induction members with
  | nil => rfl
  | cons member rest ih => rw [compactMembers, ih, List.map_cons, String.append_empty]

/-- Without blanks, a container is its brackets and its parts. -/
theorem spells_bracketed {opening closing : String} {first last : Token}
    (hOpening : Symbol opening first) (hClosing : Symbol closing last) (hCloses : Closes closing)
    {texts : List String} {parts : List (List Token)}
    (h : List.Forall₂ (fun text part => Spells text.toList part) texts parts) :
    Spells (opening ++ String.intercalate "," texts ++ closing).toList
      (first :: ([.comma].intercalate parts ++ [last])) := by
  have hAll := spells_container "" "" (by simp) (by simp) hOpening hClosing hCloses h
  simpa using hAll

/-- A readable document spells its tokens when it is written without blanks. -/
theorem spells_compact {document : Json} (h : document.Readable) :
    Spells document.compact.toList document.tokens := by
  induction h with
  | null => exact spells_null
  | bool value => exact spells_bool value
  | @number numeral wellFormed =>
      rw [compact, String.toList_ofList, Numeral.text_eq]
      exact spells_number wellFormed (.inl rfl)
  | string text => exact spells_quote text
  | @array elements _ ih =>
      rw [compact, tokens, compactElements_eq_map, elementTokens_eq_map]
      refine spells_bracketed symbol_openArray symbol_closeArray closes_array ?_
      rw [List.forall₂_map_left_iff, List.forall₂_map_right_iff, List.forall₂_same]
      exact ih
  | @object members keys _ ih =>
      rw [compact, tokens, compactMembers_eq_map, memberTokens_eq_map]
      refine spells_bracketed symbol_openObject symbol_closeObject closes_object ?_
      rw [List.forall₂_map_left_iff, List.forall₂_map_right_iff, List.forall₂_same]
      intro member hMem
      obtain ⟨key, hKey⟩ := keys member hMem
      rw [hKey]
      exact spells_member "" (by simp) key (ih member hMem)

/-- The compact form consists of the tokens of the document. -/
theorem scan_compact {document : Json} (h : document.Readable) :
    scan document.compact.toList = some document.tokens :=
  scan_of_spells (spells_compact h)

end Writing

section Reading

open Reader

/-- A reader that takes some tokens gets from one state to another. -/
def Takes (before : Reader) (read : List Token) (after : Reader) : Prop :=
  read.foldlM Reader.take before = some after

/-- Tokens taken in two parts are taken as one row. -/
theorem Takes.append {a b c : Reader} {first later : List Token} (h : Takes a first b)
    (hLater : Takes b later c) : Takes a (first ++ later) c := by
  rw [Takes, List.foldlM_append, h]
  exact hLater

/-- One token is taken before the others. -/
theorem Takes.cons {a b c : Reader} {token : Token} {later : List Token}
    (h : a.take token = some b) (hLater : Takes b later c) : Takes a (token :: later) c := by
  rw [Takes, List.foldlM_cons, h]
  exact hLater

theorem takes_nil (reader : Reader) : Takes reader [] reader :=
  rfl

/-- Where an element or the end of an array is expected, a document is taken as the first
element. -/
theorem takes_first_element {document : Json} {frames : List Frame} {after : Reader}
    (h : Takes ⟨.array [] :: frames, .value⟩ document.tokens after) :
    Takes ⟨frames, .element⟩ document.tokens after := by
  cases document <;> exact h

/-- Further elements of an array and its end. -/
theorem takes_elements {elements : List Json} {frames : List Frame}
    (h : ∀ element ∈ elements, ∀ frames,
      Takes ⟨frames, .value⟩ element.tokens ⟨frames, .continuation element⟩)
    (done : List Json) (last : Json) :
    Takes ⟨.array done :: frames, .continuation last⟩
      ((elements.flatMap fun element => .comma :: element.tokens) ++ [.closeArray])
      ⟨frames, .continuation (.array ((last :: done).reverse ++ elements))⟩ := by
  induction elements generalizing done last with
  | nil =>
      rw [List.append_nil]
      exact .cons rfl (takes_nil _)
  | cons element rest ih =>
      have hRest := ih (fun next hMem => h next (List.mem_cons_of_mem _ hMem)) (last :: done) element
      rw [List.flatMap_cons, List.append_assoc]
      refine Takes.cons rfl ((h element List.mem_cons_self _).append ?_)
      simpa using hRest

/-- Further members of an object and its end. -/
theorem takes_members {members : Members} {frames : List Frame}
    (h : ∀ member ∈ members, ∀ frames,
      Takes ⟨frames, .value⟩ member.2.tokens ⟨frames, .continuation member.2⟩)
    (done : Members) (key : Option String) (last : Json) :
    Takes ⟨.object done key :: frames, .continuation last⟩
      ((members.flatMap fun member => .comma :: .string member.1 :: .colon :: member.2.tokens) ++
        [.closeObject])
      ⟨frames, .continuation (.object (((key, last) :: done).reverse ++ members))⟩ := by
  induction members generalizing done key last with
  | nil =>
      rw [List.append_nil]
      exact .cons rfl (takes_nil _)
  | cons member rest ih =>
      have hRest := ih (fun next hMem => h next (List.mem_cons_of_mem _ hMem))
        ((key, last) :: done) member.1 member.2
      rw [List.flatMap_cons, List.append_assoc]
      refine Takes.cons rfl (.cons rfl (.cons rfl ?_))
      refine (h member List.mem_cons_self _).append ?_
      simpa using hRest

/-- Where a value is expected, the tokens of a document are taken as the document. -/
theorem takes_tokens (document : Json) (frames : List Frame) :
    Takes ⟨frames, .value⟩ document.tokens ⟨frames, .continuation document⟩ := by
  induction document using Json.induction generalizing frames with
  | null => exact .cons rfl (takes_nil _)
  | bool value => exact .cons rfl (takes_nil _)
  | number numeral => exact .cons rfl (takes_nil _)
  | string text => exact .cons rfl (takes_nil _)
  | array elements ih =>
      rw [tokens, elementTokens_eq_map]
      refine Takes.cons rfl ?_
      cases elements with
      | nil => exact .cons rfl (takes_nil _)
      | cons first rest =>
          rw [List.map_cons, intercalate_cons, List.flatMap_map, List.append_assoc]
          refine (takes_first_element (ih first List.mem_cons_self _)).append ?_
          exact takes_elements (fun next hMem => ih next (List.mem_cons_of_mem _ hMem)) [] first
  | object members ih =>
      rw [tokens, memberTokens_eq_map]
      refine Takes.cons rfl ?_
      cases members with
      | nil => exact .cons rfl (takes_nil _)
      | cons first rest =>
          rw [List.map_cons, intercalate_cons, List.flatMap_map, List.append_assoc]
          refine Takes.cons rfl (.cons rfl ?_)
          refine (ih first List.mem_cons_self _).append ?_
          exact takes_members (fun next hMem => ih next (List.mem_cons_of_mem _ hMem)) [] first.1
            first.2

/-- A text is read as the document whose tokens it has. -/
theorem parse?_of_scan {document : Json} {text : String}
    (hTokens : scan text.toList = some document.tokens) : parse? text = some document := by
  have hTaken : document.tokens.foldlM Reader.take ⟨[], .value⟩ =
      some ⟨[], .continuation document⟩ := takes_tokens document []
  rw [parse?, hTokens]
  simp [ofTokens?, hTaken, Reader.finish]

/-- A readable document is read back from its indented text. -/
theorem parse?_pretty {document : Json} (h : document.Readable) :
    parse? document.pretty = some document :=
  parse?_of_scan (scan_pretty h)

/-- A readable document is read back from its compact text. -/
theorem parse?_compact {document : Json} (h : document.Readable) :
    parse? document.compact = some document :=
  parse?_of_scan (scan_compact h)

end Reading

end WitnessSearch.Json
