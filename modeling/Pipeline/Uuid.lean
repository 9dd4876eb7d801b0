import Pipeline.Text.Number

/-!
# Universally unique identifiers

A value of 128 bits, written as 32 hexadecimal digits in groups of 8, 4, 4, 4 and 12.

* `Uuid.text`: the written form, in lower case with hyphens between the groups.
* `Uuid.ofText?`: reads the written form in either case, alone, in braces or behind
  `urn:uuid:`, and also the 32 digits without hyphens.
-/

namespace Pipeline

/-- A value of 128 bits. -/
structure Uuid where
  value : BitVec 128
  deriving DecidableEq, Repr, Inhabited

namespace Uuid

/-- The lengths of the groups of digits. -/
def groups : List Nat := [8, 4, 4, 4, 12]

/-- Puts hyphens between groups of the given lengths. -/
def hyphenate : List Nat → List Char → List Char
  | [], cs => cs
  | [_], cs => cs
  | n :: ns, cs => cs.take n ++ '-' :: hyphenate ns (cs.drop n)

/-- Takes the hyphens between groups of the given lengths out. -/
def joinGroups? : List Nat → List Char → Option (List Char)
  | [], cs => if cs.isEmpty then some [] else none
  | [n], cs => if cs.length = n then some cs else none
  | n :: ns, cs =>
    if (cs.take n).length = n then
      match cs.drop n with
      | '-' :: rest => (joinGroups? ns rest).map (cs.take n ++ ·)
      | _ => none
    else none

/-- The value of exactly 32 digits. -/
def ofDigits? (cs : List Char) : Option Uuid :=
  if cs.length = 32 then (Text.natural? 16 cs).map fun n => ⟨BitVec.ofNat 128 n⟩ else none

/-- Reads the form with hyphens. -/
def ofGroups? (cs : List Char) : Option Uuid := (joinGroups? groups cs).bind ofDigits?

/-- The text that may stand before the form with hyphens. -/
def urnStart : List Char := "urn:uuid:".toList

/-- What follows `urn:uuid:`, whose letters may be of either case. -/
def afterUrn? (cs : List Char) : Option (List Char) :=
  if (cs.take urnStart.length).map Char.toLower = urnStart then some (cs.drop urnStart.length)
  else none

/-- Reads a value in any of its written forms. -/
def ofChars? (cs : List Char) : Option Uuid :=
  if cs.length = 32 then ofDigits? cs
  else
    match cs with
    | '\x7b' :: rest =>
      if rest.getLast? = some '\x7d' then ofGroups? rest.dropLast else none
    | _ =>
      match afterUrn? cs with
      | some rest => ofGroups? rest
      | none => ofGroups? cs

/-- Reads a value in any of its written forms. -/
def ofText? (s : String) : Option Uuid := ofChars? s.toList

/-- The 32 digits of a value. -/
def digits (u : Uuid) : List Char := Text.hexadecimal 32 u.value.toNat

/-- The written form: digits in lower case, with hyphens between the groups. -/
def chars (u : Uuid) : List Char := hyphenate groups u.digits

/-- The written form: digits in lower case, with hyphens between the groups. -/
def text (u : Uuid) : String := String.ofList u.chars

end Uuid

end Pipeline
