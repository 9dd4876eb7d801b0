import Pipeline.Yaml.Token.Scalar
import Pipeline.Yaml.Token.Tag

/-!
# The layout of YAML text

Indentation tells where block collections begin and end, and a text becomes a key when a colon
follows it. Both are decided while the words are read.

* `Yaml.PendingKey`: a place where a key may begin, until a colon confirms it. A key stands on
  one line and is at most 1024 characters long.
* `Yaml.Layout`: where the reader stands, with the indentation of the open block collections.
* `Yaml.tokens?`: the words of a stream, or nothing if it is malformed.
-/

namespace Pipeline

namespace Yaml

/-- A place in a text. -/
structure Position where
  line : Nat
  column : Nat
  offset : Nat

/-- The place behind a character. -/
def Position.next (p : Position) (c : Char) : Position :=
  if isBreak c then ⟨p.line + 1, 0, p.offset + 1⟩ else ⟨p.line, p.column + 1, p.offset + 1⟩

/-- A place where a key may begin: how many words stand before it, and whether the text that
stands there can be nothing but a key. -/
structure PendingKey where
  required : Bool
  before : Nat
  position : Position

/-- How many characters a key may have. -/
def keyLimit : Nat := 1024

/-- The state of the reader: the text that is left, the words read so far in reverse with their
number, the key that may begin at this level of flow collections and at those around it, the
indentation of the innermost block collection and of those around it, and whether a key may
begin here. -/
structure Layout where
  rest : List Char
  position : Position
  tokens : List Token
  count : Nat
  key : Option PendingKey
  outer : List (Option PendingKey)
  indent : Int
  indents : List Int
  keyAllowed : Bool

namespace Layout

/-- The reader before a text. -/
def start (cs : List Char) : Layout :=
  ⟨cs, ⟨0, 0, 0⟩, [], 0, none, [], -1, [], true⟩

/-- Whether the reader stands inside a flow collection. -/
def inFlow (s : Layout) : Bool := !s.outer.isEmpty

/-- The state behind the next `n` characters. -/
def skip : Nat → Layout → Layout
  | 0, s => s
  | n + 1, s =>
    match s.rest with
    | [] => s
    | c :: cs => skip n { s with rest := cs, position := s.position.next c }

/-- The state where only `rest` is left of the text. -/
def goTo (rest : List Char) (s : Layout) : Layout := s.skip (s.rest.length - rest.length)

/-- The state with one more word. -/
def emit (t : Token) (s : Layout) : Layout :=
  { s with tokens := t :: s.tokens, count := s.count + 1 }

/-- The state with a word put in behind the first `before` ones. -/
def emitAt (before : Nat) (t : Token) (s : Layout) : Layout :=
  let behind := s.count - before
  { s with
    tokens := s.tokens.take behind ++ t :: s.tokens.drop behind
    count := s.count + 1 }

/-- Forgets the key that may begin at this level. -/
def dropKey? (s : Layout) : Option Layout :=
  match s.key with
  | some k => if k.required then none else some { s with key := none }
  | none => some s

/-- Notes that a key may begin here. -/
def saveKey? (s : Layout) : Option Layout :=
  if s.keyAllowed then
    let required := !s.inFlow && s.indent == (s.position.column : Int)
    s.dropKey?.map fun s => { s with key := some ⟨required, s.count, s.position⟩ }
  else some s

/-- Whether a key that began at `k` is too long where the reader stands. -/
def isStale (s : Layout) (k : PendingKey) : Bool :=
  k.position.line < s.position.line || k.position.offset + keyLimit < s.position.offset

/-- Forgets a key that is too long; nothing if it was one for certain. -/
def freshKey? (s : Layout) : Option PendingKey → Option (Option PendingKey)
  | none => some none
  | some k => if s.isStale k then (if k.required then none else some none) else some (some k)

/-- Forgets the keys that are too long. -/
def dropStaleKeys? (s : Layout) : Option Layout :=
  match s.freshKey? s.key, s.outer.mapM s.freshKey? with
  | some key, some outer => some { s with key, outer }
  | _, _ => none

/-- Begins a block collection if it is indented deeper than the one around it. Its first word
goes behind the first `before` ones. -/
def indentTo (column before : Nat) (t : Token) (s : Layout) : Layout :=
  if !s.inFlow && s.indent < (column : Int) then
    { s.emitAt before t with indent := column, indents := s.indent :: s.indents }
  else s

/-- Ends the block collections among `indents` that are indented deeper than `column`. -/
def closeBlocks (column : Int) : List Int → Layout → Layout
  | [], s => s
  | outer :: indents, s =>
    if column < s.indent then
      closeBlocks column indents { s.emit .blockEnd with indent := outer, indents }
    else s

/-- Ends the block collections that are indented deeper than `column`. -/
def dedentTo (column : Int) (s : Layout) : Layout :=
  if s.inFlow then s else s.closeBlocks column s.indents

/-- Passes blanks, comments and line breaks, with at most `fuel` line breaks. Outside of flow
collections a new line may begin a key, and a tab may not stand where one may. -/
def skipGaps : Nat → Layout → Layout
  | 0, s => s
  | fuel + 1, s =>
    let tabs := s.inFlow || !s.keyAllowed
    let gap := s.rest.dropWhile fun c => c == ' ' || (tabs && c == '\t')
    let s := s.goTo (dropComment gap)
    match s.rest with
    | c :: _ =>
      if isBreak c then
        skipGaps fuel { s.skip 1 with keyAllowed := s.keyAllowed || !s.inFlow }
      else s
    | [] => s

/-- Passes a byte order mark at the start of the text, which then takes a column. -/
def skipByteOrderMark (s : Layout) : Layout :=
  match s.rest with
  | c :: _ => if s.position.offset = 0 ∧ c.toNat = 0xFEFF then s.skip 1 else s
  | [] => s

/-- A word of `length` characters that stands by itself. -/
def mark (length : Nat) (t : Token) (s : Layout) : Layout := (s.skip length).emit t

/-- The mark of a new document or of the end of one. -/
def documentMark? (t : Token) (s : Layout) : Option Layout :=
  ((s.dedentTo (-1)).dropKey?).map fun s => { s.mark 3 t with keyAllowed := false }

/-- A directive. -/
def directiveLine? (s : Layout) : Option Layout :=
  match (s.dedentTo (-1)).dropKey?, directive? (s.rest.drop 1) with
  | some s, some (t, rest) =>
    (afterLine? rest).map fun rest => { (s.goTo rest).emit t with keyAllowed := false }
  | _, _ => none

/-- The start of a flow collection. -/
def openFlow? (t : Token) (s : Layout) : Option Layout :=
  s.saveKey?.map fun s =>
    { s.mark 1 t with key := none, outer := s.key :: s.outer, keyAllowed := true }

/-- The end of a flow collection. -/
def closeFlow? (t : Token) (s : Layout) : Option Layout :=
  s.dropKey?.map fun s =>
    let s := { s.mark 1 t with keyAllowed := false }
    match s.outer with
    | key :: outer => { s with key, outer }
    | [] => s

/-- A comma. -/
def flowEntry? (s : Layout) : Option Layout :=
  s.dropKey?.map fun s => { s.mark 1 .flowEntry with keyAllowed := true }

/-- A hyphen that begins an entry. -/
def blockEntry? (s : Layout) : Option Layout :=
  if s.inFlow || s.keyAllowed then
    (s.indentTo s.position.column s.count .blockSequenceStart).dropKey?.map fun s =>
      { s.mark 1 .blockEntry with keyAllowed := true }
  else none

/-- A question mark that begins a key. -/
def explicitKey? (s : Layout) : Option Layout :=
  if s.inFlow || s.keyAllowed then
    (s.indentTo s.position.column s.count .blockMappingStart).dropKey?.map fun s =>
      { s.mark 1 .key with keyAllowed := !s.inFlow }
  else none

/-- A colon: it confirms the key that may have begun, or follows one that was announced. -/
def value? (s : Layout) : Option Layout :=
  match s.key with
  | some k =>
    let s := (s.emitAt k.before .key).indentTo k.position.column k.before .blockMappingStart
    some { s.mark 1 .value with key := none, keyAllowed := false }
  | none =>
    if s.inFlow || s.keyAllowed then
      let s := s.indentTo s.position.column s.count .blockMappingStart
      some { s.mark 1 .value with keyAllowed := !s.inFlow }
    else none

/-- An anchor or alias. -/
def anchor? (t : String → Token) (s : Layout) : Option Layout :=
  match s.saveKey?, anchorName? (s.rest.drop 1) with
  | some s, some (name, rest) => some { (s.goTo rest).emit (t name) with keyAllowed := false }
  | _, _ => none

/-- A tag. -/
def tagWord? (s : Layout) : Option Layout :=
  match s.saveKey?, tag? s.inFlow (s.rest.drop 1) with
  | some s, some (t, rest) => some { (s.goTo rest).emit t with keyAllowed := false }
  | _, _ => none

/-- A scalar that is written as a block of lines. -/
def blockScalarWord? (style : Style) (s : Layout) : Option Layout :=
  match s.dropKey?, blockScalar? (style == .folded) s.indent (s.rest.drop 1) with
  | some s, some (text, rest) =>
    some { (s.goTo rest).emit (.scalar style text) with keyAllowed := true }
  | _, _ => none

/-- A scalar in quotes. -/
def quotedWord? (quote : Char) (s : Layout) : Option Layout :=
  match s.saveKey?, quoted? quote (s.rest.drop 1) with
  | some s, some (text, rest) =>
    some { (s.goTo rest).emit (.scalar .quoted text) with keyAllowed := false }
  | _, _ => none

/-- A plain scalar. A key may begin behind it if it was followed by a line break. -/
def plainWord? (s : Layout) : Option Layout :=
  let found? :=
    plainFrom? s.inFlow (s.indent + 1).toNat ⟨[], Gap.none, s.position.column⟩ s.rest
  match s.saveKey?, found? with
  | some s, some (found, rest) =>
    some { (s.goTo rest).emit (.scalar .plain (String.ofList found.read.reverse)) with
      keyAllowed := found.gap.isBroken }
  | _, _ => none

/-- The characters that no plain scalar begins with. -/
def isIndicator (c : Char) : Bool :=
  "-?:,[]#&*!|>'\"%@".toList.contains c || ['\x7b', '\x7d', '\x60'].contains c

/-- Whether a plain scalar begins where the text stands. -/
def beginsPlain (inFlow : Bool) : List Char → Bool
  | [] => false
  | c :: cs =>
    !(isBlank c || isBreak c || isIndicator c) ||
      (c == '-' && !(match cs with | d :: _ => isBlank d | [] => false)) ||
      (!inFlow && (c == '?' || c == ':') && !endsWord cs)

/-- Reads the next word, of which `c` is the first character and `cs` the others. -/
def word? (s : Layout) (c : Char) (cs : List Char) : Option Layout :=
  let lineStart := s.position.column == 0
  if lineStart && c == '%' then s.directiveLine?
  else if lineStart && isDocumentMark '-' (c :: cs) then s.documentMark? .documentStart
  else if lineStart && isDocumentMark '.' (c :: cs) then s.documentMark? .documentEnd
  else if c = '[' then s.openFlow? .flowSequenceStart
  else if c = '\x7b' then s.openFlow? .flowMappingStart
  else if c = ']' then s.closeFlow? .flowSequenceEnd
  else if c = '\x7d' then s.closeFlow? .flowMappingEnd
  else if c = ',' then s.flowEntry?
  else if c = '-' && endsWord cs then s.blockEntry?
  else if c = '?' && (s.inFlow || endsWord cs) then s.explicitKey?
  else if c = ':' && (s.inFlow || endsWord cs) then s.value?
  else if c = '*' then s.anchor? .alias
  else if c = '&' then s.anchor? .anchor
  else if c = '!' then s.tagWord?
  else if c = '|' && !s.inFlow then s.blockScalarWord? .literal
  else if c = '>' && !s.inFlow then s.blockScalarWord? .folded
  else if c = '\'' then s.quotedWord? '\''
  else if c = '"' then s.quotedWord? '"'
  else if beginsPlain s.inFlow (c :: cs) then s.plainWord?
  else none

/-- The words of the rest of the stream, with at most `fuel` of them left. -/
def finish? : Nat → Layout → Option (List Token)
  | 0, _ => none
  | fuel + 1, s =>
    match (s.skipByteOrderMark.skipGaps (s.rest.length + 1)).dropStaleKeys? with
    | none => none
    | some s =>
      let s := s.dedentTo s.position.column
      match s.rest with
      | [] => ((s.dedentTo (-1)).dropKey?).map fun s => s.tokens.reverse
      | c :: cs =>
        match s.word? c cs with
        | some next => next.finish? fuel
        | none => none

end Layout

/-- The text of a stream without the mark that tells its byte order. -/
def dropByteOrderMark : List Char → List Char
  | c :: cs => if c.toNat = 0xFEFF then cs else c :: cs
  | [] => []

/-- The words of a stream of documents. -/
def tokens? (s : String) : Option (List Token) :=
  let cs := dropByteOrderMark s.toList
  if cs.all admissible then
    let cs := unifyBreaks cs
    (Layout.start cs).finish? (cs.length + 1)
  else none

end Yaml

end Pipeline
