import WitnessSearch.Json.Numeral

/-! Writing documents. The compact form has no blanks. The pretty form puts every element and member
on a line of its own, indented by two blanks for each container around it, and keeps empty
containers on one line. Only quotes, backslashes and control characters are escaped in strings. -/

namespace WitnessSearch

namespace Numeral

def signText : ExponentSign → List Char
  | .unsigned => []
  | .plus => ['+']
  | .minus => ['-']

def text (numeral : Numeral) : List Char :=
  (if numeral.negative then ['-'] else []) ++ numeral.whole ++
    (if numeral.fraction.isEmpty then [] else '.' :: numeral.fraction) ++
    (match numeral.exponent with
      | none => []
      | some (sign, digits) => 'e' :: (signText sign ++ digits))

end Numeral

namespace Json

def hexDigit (value : Nat) : Char :=
  Nat.digitChar (value % 16)

def escape (c : Char) : List Char :=
  if c = '"' then ['\\', '"']
  else if c = '\\' then ['\\', '\\']
  else if c = '\x08' then ['\\', 'b']
  else if c = '\t' then ['\\', 't']
  else if c = '\n' then ['\\', 'n']
  else if c = '\x0c' then ['\\', 'f']
  else if c = '\r' then ['\\', 'r']
  else if c.toNat < 0x20 then ['\\', 'u', '0', '0', hexDigit (c.toNat / 16), hexDigit c.toNat]
  else [c]

/-- A string in quotes. A string that is no text is written as a missing one. -/
def quote (text : Option String) : String :=
  match text with
  | some text => String.ofList ('"' :: (text.toList.flatMap escape ++ ['"']))
  | none => "\"\""

mutual

def compact : Json → String
  | null => "null"
  | bool value => if value then "true" else "false"
  | number numeral => String.ofList numeral.text
  | string text => quote text
  | array elements => "[" ++ String.intercalate "," (compactElements elements) ++ "]"
  | object members => r"{" ++ String.intercalate "," (compactMembers members) ++ r"}"

def compactElements : List Json → List String
  | [] => []
  | element :: rest => compact element :: compactElements rest

def compactMembers : List (Option String × Json) → List String
  | [] => []
  | (key, value) :: rest => (quote key ++ ":" ++ compact value) :: compactMembers rest

end

def indentation (depth : Nat) : String :=
  String.ofList ('\n' :: List.replicate (2 * depth) ' ')

def block (depth : Nat) (opening closing : String) (lines : List String) : String :=
  if lines.isEmpty then opening ++ closing
  else
    opening ++ String.intercalate "," (lines.map fun line => indentation (depth + 1) ++ line) ++
      indentation depth ++ closing

mutual

def prettyAt (depth : Nat) : Json → String
  | null => "null"
  | bool value => if value then "true" else "false"
  | number numeral => String.ofList numeral.text
  | string text => quote text
  | array elements => block depth "[" "]" (prettyElements (depth + 1) elements)
  | object members => block depth r"{" r"}" (prettyMembers (depth + 1) members)

def prettyElements (depth : Nat) : List Json → List String
  | [] => []
  | element :: rest => prettyAt depth element :: prettyElements depth rest

def prettyMembers (depth : Nat) : List (Option String × Json) → List String
  | [] => []
  | (key, value) :: rest =>
    (quote key ++ ": " ++ prettyAt depth value) :: prettyMembers depth rest

end

def pretty (document : Json) : String :=
  prettyAt 0 document

def ofText (text : String) : Json :=
  .string (some text)

def ofNat (value : Nat) : Json :=
  .number (.ofNat value)

def ofInt (value : Int) : Json :=
  .number (.ofInt value)

/-- A double as a document. What is not finite is a null. -/
def ofFloat (value : Float) : Json :=
  match Numeral.ofFloat? value with
  | some numeral => .number numeral
  | none => .null

/-- An optional value as a document. A missing one is a null. -/
def ofOption {α : Type} (encode : α → Json) : Option α → Json
  | some value => encode value
  | none => .null

def ofList {α : Type} (encode : α → Json) (values : List α) : Json :=
  .array (values.map encode)

def ofMembers (members : List (String × Json)) : Json :=
  .object (members.map fun (key, value) => (some key, value))

end Json

end WitnessSearch
