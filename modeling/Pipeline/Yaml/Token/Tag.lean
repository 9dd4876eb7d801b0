import Pipeline.Yaml.Token
import Pipeline.Yaml.Character

/-!
# Tags, anchors and directives in YAML text

* `Yaml.anchorName?`: the name of an anchor or alias.
* `Yaml.tag?`: a tag, split into a handle and a suffix. A tag that is written out has no handle.
* `Yaml.directive?`: a line that begins with a percent sign.

Each reader returns the text behind what it reads.
-/

namespace Pipeline

namespace Yaml

/-- Reads the name of an anchor or alias, behind its indicator. -/
def anchorName? (cs : List Char) : Option (String × List Char) :=
  let name := cs.takeWhile isNameChar
  let rest := cs.dropWhile isNameChar
  let ended := endsWord rest ||
    match rest with
    | c :: _ => ['?', ':', ',', ']', '\x7d', '%', '@', '\x60'].contains c
    | [] => true
  if name.isEmpty || !ended then none else some (String.ofList name, rest)

/-- The characters of tags. Those that structure flow collections may stand in a tag that is
written out in angle brackets, and in a directive. -/
def isTagChar (verbatim : Bool) (c : Char) : Bool :=
  isNameChar c || ";/?:@&=+$.%!~*'()".toList.contains c ||
    (verbatim && [',', '[', ']'].contains c)

/-- Reads the two digits of a byte that is written as an escape. -/
def escapedByte? : List Char → Option (Nat × List Char)
  | '%' :: a :: b :: rest =>
    match Text.digit? 16 a, Text.digit? 16 b with
    | some x, some y => some (x * 16 + y, rest)
    | _, _ => none
  | _ => none

/-- Reads the bytes behind the first one of a character in the UTF-8 form. -/
def continuation? : Nat → Nat → List Char → Option (Nat × List Char)
  | 0, value, cs => some (value, cs)
  | n + 1, value, cs =>
    match escapedByte? cs with
    | some (byte, rest) =>
      if byte / 64 = 2 then continuation? n (value * 64 + byte % 64) rest else none
    | none => none

/-- Reads a character that is written as escaped bytes. -/
def escapedChar? (cs : List Char) : Option (Char × List Char) :=
  match escapedByte? cs with
  | none => none
  | some (byte, rest) =>
    let tail? :=
      if byte < 0x80 then some (0, byte)
      else if byte / 32 = 6 then some (1, byte % 32)
      else if byte / 16 = 14 then some (2, byte % 16)
      else if byte / 8 = 30 then some (3, byte % 8)
      else none
    match tail? with
    | none => none
    | some (n, start) => (continuation? n start rest).map fun (v, rest) => (Char.ofNat v, rest)

/-- Reads as many characters of a tag as there are. Escapes are resolved. -/
def tagText? (verbatim : Bool) : Nat → List Char → Option (List Char × List Char)
  | 0, cs => some ([], cs)
  | _ + 1, [] => some ([], [])
  | fuel + 1, c :: cs =>
    if !isTagChar verbatim c then some ([], c :: cs)
    else if c = '%' then
      match escapedChar? (c :: cs) with
      | some (d, rest) => (tagText? verbatim fuel rest).map fun (t, rest) => (d :: t, rest)
      | none => none
    else (tagText? verbatim fuel cs).map fun (t, rest) => (c :: t, rest)

/-- Reads the characters of a tag, at least one. -/
def tagSuffix? (verbatim : Bool) (cs : List Char) : Option (List Char × List Char) :=
  match tagText? verbatim cs.length cs with
  | some ([], _) => none
  | found => found

/-- Whether a tag may end where the text stands. -/
def endsTag (inFlow : Bool) (cs : List Char) : Bool :=
  endsWord cs || (inFlow && cs.head? == some ',')

/-- Reads a tag, behind its exclamation mark. -/
def tag? (inFlow : Bool) (cs : List Char) : Option (Token × List Char) :=
  let found? : Option (Token × List Char) :=
    match cs with
    | '<' :: body =>
      match tagSuffix? true body with
      | some (suffix, '>' :: rest) => some (.tag "" (String.ofList suffix), rest)
      | _ => none
    | _ =>
      let name := cs.takeWhile isNameChar
      match cs.dropWhile isNameChar with
      | '!' :: body =>
        (tagSuffix? false body).map fun (suffix, rest) =>
          (.tag (String.ofList ('!' :: name ++ ['!'])) (String.ofList suffix), rest)
      | _ =>
        (tagText? false cs.length cs).map fun (suffix, rest) =>
          (if suffix.isEmpty then .tag "" "!" else .tag "!" (String.ofList suffix), rest)
  found?.filter fun (_, rest) => endsTag inFlow rest

/-- Reads up to nine digits of a version. -/
def versionNumber? (cs : List Char) : Option (Nat × List Char) :=
  let ds := cs.takeWhile Text.isDecimalDigit
  if ds.length ≤ 9 then
    (Text.natural? 10 ds).map fun n => (n, cs.dropWhile Text.isDecimalDigit)
  else none

/-- Reads the version that a stream says it is written in. -/
def versionDirective? (cs : List Char) : Option (Token × List Char) :=
  match versionNumber? (cs.dropWhile isBlank) with
  | some (major, '.' :: rest) =>
    (versionNumber? rest).map fun (minor, rest) => (.version major minor, rest)
  | _ => none

/-- Reads the handle that a directive gives a meaning to: `!`, `!!` or `!name!`. -/
def directiveHandle? : List Char → Option (List Char × List Char)
  | '!' :: cs =>
    let name := cs.takeWhile isNameChar
    match cs.dropWhile isNameChar with
    | '!' :: rest => some ('!' :: name ++ ['!'], rest)
    | rest => if name.isEmpty then some (['!'], rest) else none
  | _ => none

/-- Reads a handle and what it stands for. -/
def tagDirective? (cs : List Char) : Option (Token × List Char) :=
  match directiveHandle? (cs.dropWhile isBlank) with
  | some (handle, c :: rest) =>
    if isBlank c then
      match tagSuffix? true (rest.dropWhile isBlank) with
      | some (start, rest) =>
        if endsWord rest then
          some (.tagDirective (String.ofList handle) (String.ofList start), rest)
        else none
      | none => none
    else none
  | _ => none

/-- Reads a directive, behind its percent sign. -/
def directive? (cs : List Char) : Option (Token × List Char) :=
  let name := cs.takeWhile isNameChar
  let rest := cs.dropWhile isNameChar
  if !endsWord rest then none
  else if name = "YAML".toList then versionDirective? rest
  else if name = "TAG".toList then tagDirective? rest
  else none

end Yaml

end Pipeline
