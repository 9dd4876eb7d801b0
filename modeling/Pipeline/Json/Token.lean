import Pipeline.Json
import Pipeline.Text.Number

/-!
# Words of JSON text

* `Json.Token`: punctuation, and values without parts.
* `Json.tokens?`: the words of a text, or nothing if it holds what is no word.
* `Json.number?`: the value of a written number.
-/

namespace Pipeline

namespace Json

/-- A word of JSON text. -/
inductive Token where
  | openBracket
  | closeBracket
  | openBrace
  | closeBrace
  | comma
  | colon
  /-- A value without parts. -/
  | scalar (v : Json)
  deriving Inhabited, Repr

/-- The characters that may stand between words. -/
def isGap (c : Char) : Bool := c == ' ' || c == '\n' || c == '\t' || c == '\r'

/-- The characters of numbers and names. -/
def isWordChar (c : Char) : Bool :=
  c.isAlphanum || c == '-' || c == '+' || c == '.'

/-- Splits a non-empty run of decimal digits off. -/
def takeDigits? (cs : List Char) : Option (List Char × List Char) :=
  let ds := cs.takeWhile Text.isDecimalDigit
  if ds.isEmpty then none else some (ds, cs.dropWhile Text.isDecimalDigit)

/-- Reads the exponent of a number, which may be missing. -/
def exponent? : List Char → Option Int
  | [] => some 0
  | c :: cs =>
    if c = 'e' ∨ c = 'E' then
      match cs with
      | '-' :: ds => (Text.natural? 10 ds).map fun n => -(n : Int)
      | '+' :: ds => (Text.natural? 10 ds).map fun n => (n : Int)
      | ds => (Text.natural? 10 ds).map fun n => (n : Int)
    else none

/-- The least number that rounds to no finite 64-bit float. -/
def finiteLimit : Nat := Nat.pow 2 1024 - Nat.pow 2 970

/-- Whether `significand * 10 ^ e` rounds to a 64-bit float that is finite. -/
def isFinite (significand : Nat) (e : Int) : Bool :=
  let size := (Text.decimal significand).length
  if significand = 0 then true
  else if e + size > 310 then false
  else if e < 0 then significand < finiteLimit * Nat.pow 10 (min e.natAbs (size + 1))
  else significand * Nat.pow 10 e.toNat < finiteLimit

/-- Reads a number without its sign: no zeros in front, and digits around the point. Integers
that fit 64 bits, with the sign, are told apart from other numbers. -/
def unsignedNumber? (negative : Bool) (word : List Char) : Option Json :=
  match takeDigits? word with
  | none => none
  | some (whole, rest) =>
    if whole.length > 1 && whole.head? == some '0' then none
    else
      let fraction? : Option (List Char × List Char) :=
        match rest with
        | '.' :: more => takeDigits? more
        | more => some ([], more)
      match fraction? with
      | none => none
      | some (fraction, behind) =>
        match exponent? behind, Text.natural? 10 (whole ++ fraction) with
        | some e, some significand =>
          let sign : String := if negative then "-" else ""
          let real := Json.real (sign ++ String.ofList word)
          if rest.isEmpty then
            if negative then
              if 0 < significand ∧ significand ≤ Nat.pow 2 63 then
                some (.int (-(significand : Int)))
              else if isFinite significand 0 then some real else none
            else if significand < Nat.pow 2 64 then some (.int significand)
            else if isFinite significand 0 then some real else none
          else if isFinite significand (e - fraction.length) then some real else none
        | _, _ => none

/-- Reads a number. -/
def number? : List Char → Option Json
  | '-' :: cs => unsignedNumber? true cs
  | cs => unsignedNumber? false cs

/-- Reads a word without quotes. -/
def word? (cs : List Char) : Option Json :=
  if cs = "null".toList then some .null
  else if cs = "true".toList then some (.bool true)
  else if cs = "false".toList then some (.bool false)
  else number? cs

/-- The character behind a backslash that stands for a single character. -/
def escape? (c : Char) : Option Char :=
  if c = '"' ∨ c = '\\' ∨ c = '/' then some c
  else if c = 'b' then some (Char.ofNat 8)
  else if c = 'f' then some (Char.ofNat 12)
  else if c = 'n' then some '\n'
  else if c = 'r' then some '\r'
  else if c = 't' then some '\t'
  else none

/-- Where the reader of words stands. What was read of a string or word is kept in reverse;
`high` is the first half of a character that is written as two codes. -/
inductive TokenMode where
  | between
  | word (read : List Char)
  | string (read : List Char)
  | escape (read : List Char) (high : Option Nat)
  | code (read : List Char) (high : Option Nat) (value digits : Nat)
  | second (read : List Char) (high : Nat)

/-- The mode behind a complete code of four digits. -/
def afterCode? (read : List Char) (high : Option Nat) (value : Nat) : Option TokenMode :=
  match high with
  | none =>
    if 0xD800 ≤ value ∧ value < 0xDC00 then some (.second read value)
    else if 0xDC00 ≤ value ∧ value < 0xE000 then none
    else some (.string (Char.ofNat value :: read))
  | some first =>
    if 0xDC00 ≤ value ∧ value < 0xE000 then
      some (.string
        (Char.ofNat (0x10000 + (first - 0xD800) * 0x400 + (value - 0xDC00)) :: read))
    else none

/-- What a character begins that stands between words: a word of its own, or a longer one. -/
def beginToken? (c : Char) : Option (List Token × TokenMode) :=
  if isGap c then some ([], .between)
  else if c = '[' then some ([.openBracket], .between)
  else if c = ']' then some ([.closeBracket], .between)
  else if c = '\x7b' then some ([.openBrace], .between)
  else if c = '\x7d' then some ([.closeBrace], .between)
  else if c = ',' then some ([.comma], .between)
  else if c = ':' then some ([.colon], .between)
  else if c = '"' then some ([], .string [])
  else if isWordChar c then some ([], .word [c])
  else none

/-- One character further: the words that end here, and the mode behind it. -/
def tokenStep? : TokenMode → Char → Option (List Token × TokenMode)
  | .between, c => beginToken? c
  | .word read, c =>
    if isWordChar c then some ([], .word (c :: read))
    else
      match word? read.reverse, beginToken? c with
      | some v, some (ts, mode) => some (.scalar v :: ts, mode)
      | _, _ => none
  | .string read, c =>
    if c = '"' then some ([.scalar (.str (String.ofList read.reverse))], .between)
    else if c = '\\' then some ([], .escape read none)
    else if c.toNat < 32 then none
    else some ([], .string (c :: read))
  | .escape read high, c =>
    if c = 'u' then some ([], .code read high 0 0)
    else if high.isSome then none
    else (escape? c).map fun d => ([], .string (d :: read))
  | .code read high value digits, c =>
    match Text.digit? 16 c with
    | none => none
    | some d =>
      if digits = 3 then (afterCode? read high (value * 16 + d)).map fun mode => ([], mode)
      else some ([], .code read high (value * 16 + d) (digits + 1))
  | .second read high, c => if c = '\\' then some ([], .escape read (some high)) else none

/-- The words of the characters behind those read in the given mode. -/
def tokensFrom? : TokenMode → List Char → Option (List Token)
  | .between, [] => some []
  | .word read, [] => (word? read.reverse).map fun v => [.scalar v]
  | _, [] => none
  | mode, c :: cs =>
    match tokenStep? mode c with
    | none => none
    | some (ts, next) => (tokensFrom? next cs).map (ts ++ ·)

/-- The words of a text. -/
def tokens? (s : String) : Option (List Token) := tokensFrom? .between s.toList

end Json

end Pipeline
