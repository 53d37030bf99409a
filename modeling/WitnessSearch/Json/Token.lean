import WitnessSearch.Json.Value

/-! The tokens of a document and how they are read. A string is read in two steps: first into
pieces, which are characters and 16-bit units given by escapes, and then into characters, where two
units that form a surrogate pair become one. Between tokens there may be blanks. -/

namespace WitnessSearch

inductive Token where
  | openArray
  | closeArray
  | openObject
  | closeObject
  | comma
  | colon
  | null
  | bool (value : Bool)
  | number (numeral : Numeral)
  | string (text : Option String)
deriving DecidableEq

namespace Token

def isBlank (c : Char) : Bool :=
  c = ' ' || c = '\t' || c = '\n' || c = '\r'

/-- A part of a string. -/
inductive Piece where
  /-- A character that stands for itself or follows a backslash. -/
  | char (c : Char)
  /-- A 16-bit unit given by its four hexadecimal digits. -/
  | code (value : Nat)
deriving DecidableEq

def hexValue? (c : Char) : Option Nat :=
  if '0' ≤ c ∧ c ≤ '9' then some (c.toNat - '0'.toNat)
  else if 'a' ≤ c ∧ c ≤ 'f' then some (c.toNat - 'a'.toNat + 10)
  else if 'A' ≤ c ∧ c ≤ 'F' then some (c.toNat - 'A'.toNat + 10)
  else none

def unit? (a b c d : Char) : Option Nat := do
  return (((← hexValue? a) * 16 + (← hexValue? b)) * 16 + (← hexValue? c)) * 16 + (← hexValue? d)

/-- The character that a backslash and a letter stand for. -/
def escaped? (c : Char) : Option Char :=
  if c = '"' then some '"'
  else if c = '\\' then some '\\'
  else if c = '/' then some '/'
  else if c = 'b' then some '\x08'
  else if c = 'f' then some '\x0c'
  else if c = 'n' then some '\n'
  else if c = 'r' then some '\r'
  else if c = 't' then some '\t'
  else none

/-- Reads the rest of a string up to its closing quote. Control characters have to be escaped. -/
def pieces : List Char → Option (List Piece × List Char)
  | [] => none
  | '"' :: rest => some ([], rest)
  | '\\' :: 'u' :: a :: b :: c :: d :: rest => do
    let value ← unit? a b c d
    let (later, rest) ← pieces rest
    return (.code value :: later, rest)
  | '\\' :: c :: rest => do
    let char ← escaped? c
    let (later, rest) ← pieces rest
    return (.char char :: later, rest)
  | c :: rest =>
    if c.toNat < 0x20 ∨ c = '\\' then none
    else do
      let (later, rest) ← pieces rest
      return (.char c :: later, rest)

def isHighSurrogate (value : Nat) : Bool :=
  0xd800 ≤ value && value < 0xdc00

def isLowSurrogate (value : Nat) : Bool :=
  0xdc00 ≤ value && value < 0xe000

def pairValue (high low : Nat) : Char :=
  Char.ofNat (0x10000 + (high - 0xd800) * 0x400 + (low - 0xdc00))

/-- The characters of pieces, given the high half of a pair that was seen last. There are none if
a surrogate is left alone. -/
def joinPieces : Option Nat → List Piece → Option (List Char)
  | none, [] => some []
  | none, .char c :: rest => (c :: ·) <$> joinPieces none rest
  | none, .code value :: rest =>
    if isHighSurrogate value then joinPieces (some value) rest
    else if isLowSurrogate value then none
    else (Char.ofNat value :: ·) <$> joinPieces none rest
  | some high, .code value :: rest =>
    if isLowSurrogate value then (pairValue high value :: ·) <$> joinPieces none rest else none
  | some _, _ => none

def textOf (pieces : List Piece) : Option String :=
  String.ofList <$> joinPieces none pieces

def spanDigits (chars : List Char) : List Char × List Char :=
  (chars.takeWhile Char.isDigit, chars.dropWhile Char.isDigit)

/-- Reads the digits after a point, if there is a point. There has to be one digit. -/
def fraction? : List Char → Option (List Char × List Char)
  | '.' :: rest =>
    let (digits, rest) := spanDigits rest
    if digits.isEmpty then none else some (digits, rest)
  | rest => some ([], rest)

def exponentSign : List Char → ExponentSign × List Char
  | '+' :: rest => (.plus, rest)
  | '-' :: rest => (.minus, rest)
  | rest => (.unsigned, rest)

/-- Reads an exponent behind its letter. There has to be one digit. -/
def exponentDigits? (rest : List Char) : Option (Option (ExponentSign × List Char) × List Char) :=
  let (sign, rest) := exponentSign rest
  let (digits, rest) := spanDigits rest
  if digits.isEmpty then none else some (some (sign, digits), rest)

def exponent? : List Char → Option (Option (ExponentSign × List Char) × List Char)
  | 'e' :: rest => exponentDigits? rest
  | 'E' :: rest => exponentDigits? rest
  | rest => some (none, rest)

/-- Whether digits may stand before a point: there is one, and a zero stands alone. -/
def isWhole : List Char → Bool
  | [] => false
  | ['0'] => true
  | '0' :: _ => false
  | _ => true

def numeral? (negative : Bool) (chars : List Char) : Option (Numeral × List Char) := do
  let (whole, rest) := spanDigits chars
  if !isWhole whole then none
  let (fraction, rest) ← fraction? rest
  let (exponent, rest) ← exponent? rest
  return (⟨negative, whole, fraction, exponent⟩, rest)

/-- Reads the token at the beginning, where no blank stands. -/
def first? : List Char → Option (Token × List Char)
  | '[' :: rest => some (.openArray, rest)
  | ']' :: rest => some (.closeArray, rest)
  | '{' :: rest => some (.openObject, rest)
  | '}' :: rest => some (.closeObject, rest)
  | ',' :: rest => some (.comma, rest)
  | ':' :: rest => some (.colon, rest)
  | '"' :: rest => do
    let (pieces, rest) ← pieces rest
    return (.string (textOf pieces), rest)
  | 'n' :: 'u' :: 'l' :: 'l' :: rest => some (.null, rest)
  | 't' :: 'r' :: 'u' :: 'e' :: rest => some (.bool true, rest)
  | 'f' :: 'a' :: 'l' :: 's' :: 'e' :: rest => some (.bool false, rest)
  | '-' :: rest => do
    let (numeral, rest) ← numeral? true rest
    return (.number numeral, rest)
  | chars => do
    let (numeral, rest) ← numeral? false chars
    return (.number numeral, rest)

/-- Reads tokens up to the end, behind the tokens read so far, which are kept latest first. The fuel
is the number of characters, since every token takes one. -/
def scanWithin : Nat → List Char → List Token → Option (List Token)
  | 0, chars, done => if chars.isEmpty then some done.reverse else none
  | fuel + 1, chars, done =>
    match chars.dropWhile isBlank with
    | [] => some done.reverse
    | chars => do
      let (token, rest) ← first? chars
      scanWithin fuel rest (token :: done)

def scan (chars : List Char) : Option (List Token) :=
  scanWithin chars.length chars []

end Token

end WitnessSearch
