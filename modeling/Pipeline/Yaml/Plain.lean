import Pipeline.Yaml.Node
import Pipeline.Json.Token

/-!
# What scalars stand for

A plain scalar may spell a null, a boolean or a number; quoted scalars and blocks are texts. A
tag decides where it names one of these kinds.

* `Yaml.isNull`, `Yaml.boolean?`, `Yaml.unsigned?`: the spellings of the kinds.
* `Yaml.settle?`: the value of a scalar.
* `Yaml.Node.settles`: whether every scalar of a value has one.
-/

namespace Pipeline

namespace Yaml

/-- The spellings of null. -/
def isNull (s : String) : Bool := ["null", "Null", "NULL", "~"].contains s

/-- The spellings of the booleans. -/
def boolean? (s : String) : Option Bool :=
  if ["true", "True", "TRUE"].contains s then some true
  else if ["false", "False", "FALSE"].contains s then some false
  else none

/-- The characters without one sign. -/
def dropSign : List Char → List Char
  | c :: cs => if c = '+' ∨ c = '-' then cs else c :: cs
  | [] => []

/-- Whether a text begins with a sign. -/
def isSigned : List Char → Bool
  | c :: _ => c == '+' || c == '-'
  | [] => false

/-- Digits with a zero in front are no number. -/
def isZeroPadded (cs : List Char) : Bool :=
  match dropSign cs with
  | '0' :: d :: ds => (d :: ds).all Text.isDecimalDigit
  | _ => false

/-- The radix that a number begins with, and its digits. -/
def radixDigits : List Char → Option (Nat × List Char)
  | '0' :: 'x' :: ds => some (16, ds)
  | '0' :: 'o' :: ds => some (8, ds)
  | '0' :: 'b' :: ds => some (2, ds)
  | _ => none

/-- A number below `limit` without a minus sign. -/
def unsignedBelow? (limit : Nat) (cs : List Char) : Option Nat :=
  let body := match cs with | '+' :: rest => rest | rest => rest
  let found? :=
    match radixDigits body with
    | some (radix, ds) => Text.natural? radix ds
    | none => if isSigned body || isZeroPadded cs then none else Text.natural? 10 body
  found?.filter (· < limit)

/-- The size of a number from `-limit` up that has a minus sign. -/
def negativeSize? (limit : Nat) : List Char → Option Nat
  | '-' :: body =>
    let found? :=
      match radixDigits body with
      | some (radix, ds) => Text.natural? radix ds
      | none => if isZeroPadded ('-' :: body) then none else Text.natural? 10 body
    found?.filter (· ≤ limit)
  | _ => none

/-- A number of 64 bits. -/
def unsigned? (s : String) : Option Nat := unsignedBelow? Text.wordLimit s.toList

/-- Whether the characters are digits with an optional point, of which there is at least one
digit, and an optional exponent, and spell a number that is not too large. -/
def isDecimal (cs : List Char) : Bool :=
  let body := dropSign cs
  let whole := body.takeWhile Text.isDecimalDigit
  let (fraction, rest) :=
    match body.dropWhile Text.isDecimalDigit with
    | '.' :: more => (more.takeWhile Text.isDecimalDigit, more.dropWhile Text.isDecimalDigit)
    | more => ([], more)
  match Text.natural? 10 (whole ++ fraction), Json.exponent? rest with
  | some significand, some e => Json.isFinite significand (e - fraction.length)
  | _, _ => false

/-- Whether the characters spell a number that need not be an integer. -/
def isReal (cs : List Char) : Bool :=
  let s := String.ofList cs
  [".inf", ".Inf", ".INF", "+.inf", "+.Inf", "+.INF", "-.inf", "-.Inf", "-.INF", ".nan",
    ".NaN", ".NAN"].contains s ||
    (!(cs.head? == some '+' && isSigned (cs.drop 1)) && isDecimal cs)

/-- The number that a text spells, if it is an integer: nothing if it is none, and `some none`
if it has more than 64 bits. -/
def integer? (s : String) : Option (Option Int) :=
  let cs := s.toList
  match unsignedBelow? Text.wordLimit cs, negativeSize? (Nat.pow 2 63) cs with
  | some n, _ => some (some n)
  | none, some n => some (some (-(n : Int)))
  | none, none =>
    if (unsignedBelow? (Nat.pow 2 128) cs).isSome || (negativeSize? (Nat.pow 2 127) cs).isSome then
      some none
    else none

/-- The value of a plain scalar without a tag. Integers of more than 64 bits have none. -/
def settlePlain? (s : String) : Option Json :=
  if s.isEmpty || isNull s then some .null
  else
    match boolean? s with
    | some b => some (.bool b)
    | none =>
      match integer? s with
      | some (some i) => some (.int i)
      | some none => none
      | none =>
        if !isZeroPadded s.toList && isReal s.toList then some (.real s) else some (.str s)

/-- What the tags of the standard kinds begin with. -/
def standardTag (kind : String) : String := "tag:yaml.org,2002:" ++ kind

/-- Whether a tag is a local one, which names a kind of its own. -/
def isLocalTag (t : String) : Bool := t.toList.head? == some '!'

/-- The value of a scalar. The tag of a standard kind decides; other tags make it a text. -/
def settle? (style : Style) (tag : Option String) (s : String) : Option Json :=
  match tag with
  | none => if style = .plain then settlePlain? s else some (.str s)
  | some t =>
    if isLocalTag t then none
    else if t = standardTag "bool" then (boolean? s).map .bool
    else if t = standardTag "int" then (integer? s).join.map .int
    else if t = standardTag "float" then if isReal s.toList then some (.real s) else none
    else if t = standardTag "null" then if isNull s then some .null else none
    else some (.str s)

namespace Node

/-- Whether a collection may have a tag: a local one would make it something else. -/
def isPlainTag (tag : Option String) : Bool := !(tag.any isLocalTag)

mutual

/-- Whether every scalar of a value has a value. -/
def settles : Node → Bool
  | .scalar style tag text => (settle? style tag text).isSome
  | .sequence tag items => isPlainTag tag && itemsSettle items
  | .mapping tag entries => isPlainTag tag && entriesSettle entries
  | .endless => false

/-- Whether every item of a list has a value. -/
def itemsSettle : List Node → Bool
  | [] => true
  | n :: ns => settles n && itemsSettle ns

/-- Whether every key and value of a list of pairs has a value. -/
def entriesSettle : List (Node × Node) → Bool
  | [] => true
  | (k, v) :: es => settles k && settles v && entriesSettle es

end

end Node

end Yaml

end Pipeline
