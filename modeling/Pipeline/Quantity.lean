import Pipeline.Text.Digit
import Pipeline.Text.Blank

/-!
# Resource quantities

Amounts of processor time and memory such as `250m`, `1.5` or `128Mi`: an optional sign, a
decimal number, and an optional scale.

`Quantity.isQuantity` accepts exactly the texts of that form. A digit is a decimal digit of any
script.
-/

namespace Pipeline

namespace Quantity

/-- The scales that are written as letters. -/
def scales : List (List Char) :=
  ["m", "k", "M", "G", "T", "P", "E", "Ki", "Mi", "Gi", "Ti", "Pi", "Ei"].map String.toList

/-- The characters without a leading sign. -/
def dropSign : List Char → List Char
  | c :: cs => if c = '+' ∨ c = '-' then cs else c :: cs
  | [] => []

/-- A non-empty run of digits and nothing else. -/
def isDigits (cs : List Char) : Bool := !cs.isEmpty && cs.all Text.isDigitChar

/-- An exponent: `e` or `E`, an optional sign and digits. -/
def isExponent : List Char → Bool
  | c :: cs => (c == 'e' || c == 'E') && isDigits (dropSign cs)
  | [] => false

/-- What may stand behind the number. -/
def isScale (cs : List Char) : Bool := cs.isEmpty || scales.contains cs || isExponent cs

/-- The text without a number at its start: digits with an optional fraction, or a fraction
alone. -/
def afterNumber? (cs : List Char) : Option (List Char) :=
  let whole := cs.takeWhile Text.isDigitChar
  match cs.dropWhile Text.isDigitChar with
  | '.' :: rest =>
    if whole.isEmpty && (rest.takeWhile Text.isDigitChar).isEmpty then none
    else some (rest.dropWhile Text.isDigitChar)
  | rest => if whole.isEmpty then none else some rest

/-- Whether the characters form a quantity. -/
def isQuantityChars (cs : List Char) : Bool :=
  match afterNumber? (dropSign cs) with
  | some rest => isScale rest
  | none => false

/-- Whether a text is a quantity. -/
def isQuantity (s : String) : Bool := isQuantityChars s.toList

end Quantity

end Pipeline
