import Pipeline.Json
import Pipeline.Text.Number

/-!
# Written JSON

* `Json.compact`: a value on one line, without blanks.
* `Json.pretty`: a value over several lines, two spaces a level; what is empty stays on its
  line.
-/

namespace Pipeline

namespace Json

/-- Writes a character of a string: quotes, backslashes and control characters are escaped. -/
def escapedChar (c : Char) : List Char :=
  if c = '"' then ['\\', '"']
  else if c = '\\' then ['\\', '\\']
  else if c = '\n' then ['\\', 'n']
  else if c = '\r' then ['\\', 'r']
  else if c = '\t' then ['\\', 't']
  else if c.toNat = 8 then ['\\', 'b']
  else if c.toNat = 12 then ['\\', 'f']
  else if c.toNat < 32 then '\\' :: 'u' :: Text.hexadecimal 4 c.toNat
  else [c]

/-- Writes a string in quotes. -/
def quoted (s : String) : String :=
  "\"" ++ String.ofList (s.toList.flatMap escapedChar) ++ "\""

/-- Writes a value that has no parts. -/
def scalarText : Json → String
  | .null => "null"
  | .bool true => "true"
  | .bool false => "false"
  | .int i => Text.ofInt i
  | .real digits => digits
  | .str s => quoted s
  | .arr _ => "[]"
  | .obj _ => "\x7b\x7d"

/-- Writes a value on one line. -/
def compact : Json → String
  | .arr items => "[" ++ compactItems items ++ "]"
  | .obj fields => "\x7b" ++ compactFields fields ++ "\x7d"
  | v => v.scalarText
where
  compactItems : List Json → String
    | [] => ""
    | [v] => v.compact
    | v :: vs => v.compact ++ "," ++ compactItems vs
  compactFields : List (String × Json) → String
    | [] => ""
    | [(k, v)] => quoted k ++ ":" ++ v.compact
    | (k, v) :: rest => quoted k ++ ":" ++ v.compact ++ "," ++ compactFields rest

/-- A line break, and the blanks before what stands `level` levels deep. -/
def lineBreak (level : Nat) : String := "\n" ++ String.ofList (List.replicate (2 * level) ' ')

/-- Writes a value over several lines, as part of something `level` levels deep. -/
def prettyAt (level : Nat) : Json → String
  | .arr [] => "[]"
  | .arr (v :: vs) => "[" ++ prettyItems (level + 1) (v :: vs) ++ lineBreak level ++ "]"
  | .obj [] => "\x7b\x7d"
  | .obj (f :: fs) => "\x7b" ++ prettyFields (level + 1) (f :: fs) ++ lineBreak level ++ "\x7d"
  | v => v.scalarText
where
  prettyItems (level : Nat) : List Json → String
    | [] => ""
    | [v] => lineBreak level ++ v.prettyAt level
    | v :: vs => lineBreak level ++ v.prettyAt level ++ "," ++ prettyItems level vs
  prettyFields (level : Nat) : List (String × Json) → String
    | [] => ""
    | [(k, v)] => lineBreak level ++ quoted k ++ ": " ++ v.prettyAt level
    | (k, v) :: rest =>
      lineBreak level ++ quoted k ++ ": " ++ v.prettyAt level ++ "," ++ prettyFields level rest

/-- Writes a value over several lines. -/
def pretty (v : Json) : String := v.prettyAt 0

end Json

end Pipeline
