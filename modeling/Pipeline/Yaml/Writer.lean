import Pipeline.Yaml.Plain

/-!
# Written YAML

Values are written as block collections, two columns a level. The items of a list stand in the
column of the key that the list belongs to.

* `Yaml.ScalarForm`: how a text can be written.
* `Yaml.scalarText`: the written form of a text. It reads back as the same text.
* `Yaml.write`: a document.
-/

namespace Pipeline

namespace Yaml

/-! ## Texts -/

/-- Whether a character may stand in a text as it is. -/
def isPrintable (c : Char) : Bool :=
  let n := c.toNat
  n == 10 || (0x20 ≤ n && n ≤ 0x7E) || (0xA0 ≤ n && n ≤ 0xFFFD && n != 0xFEFF) || 0x10000 ≤ n

/-- A character of a text with the ones before and behind it. -/
structure Neighbours where
  before : Option Char
  char : Char
  behind : Option Char

/-- The characters of a text, each with its neighbours. -/
def neighbours (before : Option Char) : List Char → List Neighbours
  | [] => []
  | [c] => [⟨before, c, none⟩]
  | c :: d :: cs => ⟨before, c, some d⟩ :: neighbours (some c) (d :: cs)

/-- Whether a text is over, or goes on with a blank or a line break. -/
def separates (c : Option Char) : Bool := c.all fun c => isBlank c || isBreak c

namespace Neighbours

/-- Whether the character would end a plain scalar or begin something else. -/
def indicates (n : Neighbours) : Bool :=
  match n.before with
  | none =>
    "#,[]&*!|>'\"%@".toList.contains n.char || ['\x7b', '\x7d', '\x60'].contains n.char ||
      ((n.char == '?' || n.char == ':' || n.char == '-') && separates n.behind)
  | some b =>
    (n.char == ':' && separates n.behind) || (n.char == '#' && (isBlank b || isBreak b))

/-- Whether the character is a space or line break at an end of the text. -/
def isOuterGap (n : Neighbours) : Bool :=
  (n.before.isNone || n.behind.isNone) && (n.char == ' ' || isBreak n.char)

/-- Whether the character is a space behind a line break. -/
def isSpaceAfterBreak (n : Neighbours) : Bool := n.char == ' ' && n.before.any isBreak

/-- Whether the character is a line break behind a space. -/
def isBreakAfterSpace (n : Neighbours) : Bool := isBreak n.char && n.before == some ' '

/-- Whether the character is a space at the end. -/
def isFinalSpace (n : Neighbours) : Bool := n.char == ' ' && n.behind.isNone

end Neighbours

/-- Whether a text begins like the mark of a document. -/
def beginsLikeMark (cs : List Char) : Bool :=
  cs.take 3 == ['-', '-', '-'] || cs.take 3 == ['.', '.', '.']

/-- Which forms a text can be written in. -/
structure ScalarForm where
  plain : Bool
  singleQuoted : Bool
  literal : Bool
  multiline : Bool

/-- Finds the forms that a text can be written in. -/
def ScalarForm.ofChars (cs : List Char) : ScalarForm :=
  let ns := neighbours none cs
  let special := ns.any fun n => !isPrintable n.char || n.isBreakAfterSpace
  let multiline := cs.any isBreak
  { plain :=
      !(special || multiline || beginsLikeMark cs || ns.any fun n => n.indicates || n.isOuterGap)
    singleQuoted := !(special || ns.any Neighbours.isSpaceAfterBreak)
    literal := !(special || cs.isEmpty || ns.any Neighbours.isFinalSpace)
    multiline := multiline }

/-- Whether a plain scalar with the text would be something else than the text. -/
def isAmbiguous (s : String) : Bool :=
  match settlePlain? s with
  | some (.str _) => isZeroPadded s.toList
  | _ => true

/-- The blanks of an indentation. -/
def spaces (n : Nat) : List Char := List.replicate n ' '

/-- A code in hexadecimal digits, with capital letters. -/
def upperHexadecimal (width n : Nat) : List Char := (Text.hexadecimal width n).map Char.toUpper

/-- The codes of the characters that an escape of one letter stands for, and the letters. -/
def escapeLetters : List (Nat × Char) :=
  [(0, '0'), (7, 'a'), (8, 'b'), (9, 't'), (10, 'n'), (11, 'v'), (12, 'f'), (13, 'r'),
   (27, 'e'), (34, '"'), (92, '\\'), (0x85, 'N'), (0xA0, '_'), (0x2028, 'L'), (0x2029, 'P')]

/-- A character in double quotes. -/
def doubleQuotedChar (c : Char) : List Char :=
  if isPrintable c && !isBreak c && c != '"' && c != '\\' then [c]
  else
    let n := c.toNat
    match escapeLetters.lookup n with
    | some letter => ['\\', letter]
    | none =>
      if n ≤ 0xFF then '\\' :: 'x' :: upperHexadecimal 2 n
      else if n ≤ 0xFFFF then '\\' :: 'u' :: upperHexadecimal 4 n
      else '\\' :: 'U' :: upperHexadecimal 8 n

/-- The characters of a text without line feeds in single quotes: a quote is written twice, and
what follows other line breaks is indented. -/
def singleQuotedChars (indent : Nat) (afterBreak : Bool) : List Char → List Char
  | [] => if afterBreak then spaces indent else []
  | c :: cs =>
    if isBreak c then c :: singleQuotedChars indent true cs
    else
      (if afterBreak then spaces indent else []) ++
        (if c = '\'' then ['\'', '\''] else [c]) ++ singleQuotedChars indent false cs

/-- The lines of a literal block: what follows line breaks is indented. -/
def literalChars (indent : Nat) (afterBreak : Bool) : List Char → List Char
  | [] => []
  | c :: cs =>
    if isBreak c then c :: literalChars indent true cs
    else (if afterBreak then spaces indent else []) ++ c :: literalChars indent false cs

/-- What the head of a literal block says about its indentation and its end. -/
def literalHints (cs : List Char) : List Char :=
  let indentation :=
    match cs with
    | c :: _ => if c == ' ' || isBreak c then ['2'] else []
    | [] => []
  let ending :=
    match cs.reverse with
    | [] => ['-']
    | c :: rest =>
      if !isBreak c then ['-']
      else if rest.isEmpty || rest.head?.any isBreak then ['+']
      else []
  indentation ++ ending

/-- A text in double quotes. -/
def doubleQuoted (cs : List Char) : List Char := '"' :: cs.flatMap doubleQuotedChar ++ ['"']

/-- The written form of a text. Its further lines are indented to `indent`. A text of several lines
is written as a block unless it is a key; a block ends with the line breaks of the text. -/
def scalarText (isKey : Bool) (indent : Nat) (s : String) : String :=
  let cs := s.toList
  let form := ScalarForm.ofChars cs
  let inQuotes := if form.singleQuoted
    then '\'' :: singleQuotedChars indent false cs ++ ['\''] else doubleQuoted cs
  String.ofList <|
    if isKey && form.multiline then doubleQuoted cs
    else if cs.contains '\n' then
      if form.literal && !isKey then '|' :: literalHints cs ++ '\n' :: literalChars indent true cs
      else doubleQuoted cs
    else if isAmbiguous s || !form.plain then inQuotes
    else cs

/-! ## Documents -/

/-- How many bytes a key may have that stands before its colon on one line. -/
def simpleKeyLimit : Nat := 128

/-- Whether a key stands before its colon on one line. -/
def isSimpleKey (k : String) : Bool := !(k.toList.any isBreak) && k.utf8ByteSize ≤ simpleKeyLimit

/-- A line break and an indentation. -/
def newLine (indent : Nat) : String := String.ofList ('\n' :: spaces indent)

/-- A written part and the end of its last line, with the indentation of the next one. A part that
ends with a line break has ended its line by itself. -/
def endLine (indent : Nat) (text : String) : String :=
  text ++ if text.toList.getLast?.any isBreak then String.ofList (spaces indent) else newLine indent

/-- Writes a value that is no collection with parts. -/
def atomText (indent : Nat) : Json → String
  | .null => "null"
  | .bool true => "true"
  | .bool false => "false"
  | .int i => Text.ofInt i
  | .real digits => digits
  | .str s => scalarText false indent s
  | .arr _ => "[]"
  | .obj _ => "\x7b\x7d"

/-- The head of an entry of a mapping, up to the colon. -/
def keyText (column : Nat) (k : String) : String :=
  if isSimpleKey k then scalarText true (column + 2) k ++ ":"
  else endLine column ("? " ++ scalarText false (column + 2) k) ++ ":"

/-- Writes a value whose collections stand in the given column. The reader stands there already;
the last line is not ended, unless a block ends it. -/
def blockText (column : Nat) : Json → String
  | .arr (v :: vs) => itemsText column (v :: vs)
  | .obj (f :: fs) => fieldsText column (f :: fs)
  | v => atomText (column + 2) v
where
  itemsText (column : Nat) : List Json → String
    | [] => ""
    | [v] => "- " ++ partText column v
    | v :: vs => endLine column ("- " ++ partText column v) ++ itemsText column vs
  partText (column : Nat) : Json → String
    | .arr (v :: vs) => itemsText (column + 2) (v :: vs)
    | .obj (f :: fs) => fieldsText (column + 2) (f :: fs)
    | v => atomText (column + 2) v
  valueText (column : Nat) (simple : Bool) : Json → String
    | .arr (v :: vs) =>
      if simple then newLine column ++ itemsText column (v :: vs)
      else " " ++ itemsText (column + 2) (v :: vs)
    | .obj (f :: fs) =>
      if simple then newLine (column + 2) ++ fieldsText (column + 2) (f :: fs)
      else " " ++ fieldsText (column + 2) (f :: fs)
    | v => " " ++ atomText (column + 2) v
  fieldsText (column : Nat) : List (String × Json) → String
    | [] => ""
    | [(k, v)] => keyText column k ++ valueText column (isSimpleKey k) v
    | (k, v) :: rest =>
      endLine column (keyText column k ++ valueText column (isSimpleKey k) v) ++
        fieldsText column rest

/-- Writes a value as a document. -/
def write (v : Json) : String := endLine 0 (blockText 0 v)

end Yaml

end Pipeline
