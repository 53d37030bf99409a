/-! Documents. A document is kept as it is written: numbers as numerals, members in their order and
as often as they occur, and strings with the mark of an unpaired surrogate. What a number or a
member means is decided by whoever reads the document, since a value that nobody asks for only has
to be well formed. -/

namespace WitnessSearch

/-- The sign of an exponent as it is written. -/
inductive ExponentSign where
  | unsigned
  | plus
  | minus
deriving DecidableEq

/-- A number as it is written. The lists hold decimal digits. -/
structure Numeral where
  negative : Bool
  /-- The digits before the point. There is at least one, and a zero stands alone. -/
  whole : List Char
  /-- The digits after the point. Without any there is no point. -/
  fraction : List Char
  /-- The exponent with at least one digit, if there is one. -/
  exponent : Option (ExponentSign × List Char)
deriving DecidableEq

/-- A document. A string is missing when it has an escape for half of a surrogate pair without the
other half; it is well formed but no text. -/
inductive Json where
  | null
  | bool (value : Bool)
  | number (numeral : Numeral)
  | string (text : Option String)
  | array (elements : List Json)
  | object (members : List (Option String × Json))
deriving Inhabited

end WitnessSearch
