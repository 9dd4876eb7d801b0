import Pipeline.Yaml.Character

/-!
# Scalars in YAML text

Scalars are plain, quoted, or written as a block of lines. Line breaks inside plain and quoted
scalars are folded: one break becomes a space, and of several breaks the first is dropped.

* `Yaml.Gap`: blanks and line breaks inside a scalar, and what they stand for.
* `Yaml.plainFrom?`, `Yaml.quotedFrom?`, `Yaml.blockScalar?`: read one scalar and return the
  text behind it.
-/

namespace Pipeline

namespace Yaml

/-! ## Gaps -/

/-- Blanks and line breaks between two characters of a scalar. -/
inductive Gap where
  /-- Blanks on one line, in reverse. -/
  | blanks (read : List Char)
  /-- Line breaks: the first one, unless it was escaped, and the later ones in reverse. -/
  | broken (first : List Char) (later : List Char)
  deriving Inhabited, Repr

namespace Gap

/-- No gap. -/
def none : Gap := .blanks []

/-- Whether there is nothing in the gap. -/
def isNone : Gap → Bool
  | .blanks read => read.isEmpty
  | .broken _ _ => false

/-- Whether the gap holds a line break. -/
def isBroken : Gap → Bool
  | .blanks _ => false
  | .broken _ _ => true

/-- What the gap stands for when text follows, in reverse: blanks for themselves, a single line
feed for a space, and further line breaks for themselves. -/
def fill : Gap → List Char
  | .blanks read => read
  | .broken ['\n'] [] => [' ']
  | .broken ['\n'] later => later
  | .broken first later => later ++ first

/-- The gap with one more blank. Blanks behind a line break are dropped. -/
def addBlank (c : Char) : Gap → Gap
  | .blanks read => .blanks (c :: read)
  | .broken first later => .broken first later

/-- The gap with one more line break. -/
def addBreak (c : Char) : Gap → Gap
  | .blanks _ => .broken [c] []
  | .broken first later => .broken first (c :: later)

end Gap

/-! ## Plain scalars -/

/-- What was read of a plain scalar: its text in reverse, the gap behind it, and the column
where the reader stands. -/
structure PlainState where
  read : List Char
  gap : Gap
  column : Nat

/-- Whether the character at the start of the text ends a plain scalar. -/
def endsPlain (inFlow : Bool) : List Char → Bool
  | [] => true
  | c :: cs => (c == ':' && endsWord cs) || (inFlow && isFlowIndicator c)

/-- Whether a colon stands inside a flow collection before a character that it may not
precede. -/
def isStrayColon (inFlow : Bool) : List Char → Bool
  | ':' :: d :: _ => inFlow && (isFlowIndicator d || d == '?')
  | _ => false

/-- Reads on in a plain scalar. Lines that follow have to be indented to `indent` outside of
flow collections. -/
def plainFrom? (inFlow : Bool) (indent : Nat) (s : PlainState) :
    List Char → Option (PlainState × List Char)
  | [] => some (s, [])
  | c :: cs =>
    if isBlank c then
      if s.gap.isBroken && s.column < indent && c == '\t' then none
      else plainFrom? inFlow indent ⟨s.read, s.gap.addBlank c, s.column + 1⟩ cs
    else if isBreak c then plainFrom? inFlow indent ⟨s.read, s.gap.addBreak c, 0⟩ cs
    else if !s.gap.isNone &&
        ((!inFlow && s.column < indent) || (s.column == 0 && isAnyDocumentMark (c :: cs)) ||
          c == '#') then
      some (s, c :: cs)
    else if isStrayColon inFlow (c :: cs) then none
    else if endsPlain inFlow (c :: cs) then some (s, c :: cs)
    else
      plainFrom? inFlow indent ⟨c :: (s.gap.fill ++ s.read), Gap.none, s.column + 1⟩ cs

/-! ## Quoted scalars -/

/-- The character that a backslash and one more character stand for. -/
def simpleEscape? (c : Char) : Option Char :=
  if c = '0' then some (Char.ofNat 0)
  else if c = 'a' then some (Char.ofNat 7)
  else if c = 'b' then some (Char.ofNat 8)
  else if c = 't' ∨ c = '\t' then some '\t'
  else if c = 'n' then some '\n'
  else if c = 'v' then some (Char.ofNat 11)
  else if c = 'f' then some (Char.ofNat 12)
  else if c = 'r' then some '\r'
  else if c = 'e' then some (Char.ofNat 27)
  else if c = ' ' ∨ c = '"' ∨ c = '/' ∨ c = '\\' then some c
  else if c = 'N' then some (Char.ofNat 0x85)
  else if c = '_' then some (Char.ofNat 0xA0)
  else if c = 'L' then some (Char.ofNat 0x2028)
  else if c = 'P' then some (Char.ofNat 0x2029)
  else none

/-- How many hexadecimal digits follow the letter of a numeric escape. -/
def codeLength? (c : Char) : Option Nat :=
  if c = 'x' then some 2 else if c = 'u' then some 4 else if c = 'U' then some 8 else none

/-- The character of a numeric escape. -/
def charOfCode? (n : Nat) : Option Char :=
  if n.isValidChar then some (Char.ofNat n) else none

/-- What was read of a quoted scalar: its text in reverse, the gap behind it, whether the
reader stands at the start of a line, and the digits and value of an escape that is not
complete. -/
structure QuotedState where
  read : List Char
  gap : Gap
  atLineStart : Bool
  missing : Nat
  code : Nat

/-- The state after one more character of text. -/
def QuotedState.push (s : QuotedState) (c : Char) : QuotedState :=
  ⟨c :: (s.gap.fill ++ s.read), Gap.none, false, 0, 0⟩

/-- Reads on in a quoted scalar, behind the opening quote. Escapes have a meaning in double
quotes only; in single quotes a quote is written twice. -/
def quotedFrom? (quote : Char) (s : QuotedState) : List Char → Option (String × List Char)
  | [] => none
  | c :: cs =>
    if 0 < s.missing then
      match Text.digit? 16 c with
      | none => none
      | some d =>
        let code := s.code * 16 + d
        if s.missing = 1 then
          match charOfCode? code with
          | some e => quotedFrom? quote (s.push e) cs
          | none => none
        else quotedFrom? quote ⟨s.read, s.gap, false, s.missing - 1, code⟩ cs
    else if isBlank c then
      quotedFrom? quote ⟨s.read, s.gap.addBlank c, false, 0, 0⟩ cs
    else if isBreak c then
      quotedFrom? quote ⟨s.read, s.gap.addBreak c, true, 0, 0⟩ cs
    else if s.atLineStart && isAnyDocumentMark (c :: cs) then none
    else if c = quote then
      match cs with
      | d :: rest =>
        if quote = '\'' ∧ d = '\'' then quotedFrom? quote (s.push '\'') rest
        else some (String.ofList (s.gap.fill ++ s.read).reverse, d :: rest)
      | [] => some (String.ofList (s.gap.fill ++ s.read).reverse, [])
    else if quote = '"' ∧ c = '\\' then
      match cs with
      | [] => none
      | e :: rest =>
        if isBreak e then
          quotedFrom? quote ⟨s.gap.fill ++ s.read, .broken [] [], true, 0, 0⟩ rest
        else
          match simpleEscape? e, codeLength? e with
          | some d, _ => quotedFrom? quote (s.push d) rest
          | none, some n => quotedFrom? quote ⟨s.read, s.gap, false, n, 0⟩ rest
          | none, none => none
    else quotedFrom? quote (s.push c) cs

/-- Reads a quoted scalar, behind the opening quote. -/
def quoted? (quote : Char) (cs : List Char) : Option (String × List Char) :=
  quotedFrom? quote ⟨[], Gap.none, false, 0, 0⟩ cs

/-! ## Block scalars -/

/-- What happens to the line breaks at the end of a block scalar. -/
inductive Chomping where
  /-- All of them are dropped. -/
  | strip
  /-- The first one is kept. -/
  | clip
  /-- All of them are kept. -/
  | keep
  deriving DecidableEq, Repr, Inhabited

/-- What a block scalar is announced with: the treatment of its end, and how much deeper than
its surroundings it is indented, if that is said. -/
structure BlockHeader where
  chomping : Chomping
  increment : Option Nat

/-- Reads a sign of the treatment of the end. -/
def chomping? : List Char → Option (Chomping × List Char)
  | '+' :: cs => some (.keep, cs)
  | '-' :: cs => some (.strip, cs)
  | _ => none

/-- Reads a digit that tells the indentation; zero is refused. -/
def increment? : List Char → Option (Option Nat × List Char)
  | c :: cs =>
    if Text.isDecimalDigit c then
      if c = '0' then none else some (some (c.toNat - 48), cs)
    else some (none, c :: cs)
  | [] => some (none, [])

/-- Reads what stands behind the indicator of a block scalar: the two signs, in either order. -/
def blockHeader? (cs : List Char) : Option (BlockHeader × List Char) :=
  match chomping? cs with
  | some (chomping, rest) => (increment? rest).map fun (n, rest) => (⟨chomping, n⟩, rest)
  | none =>
    match increment? cs with
    | none => none
    | some (none, rest) => some (⟨.clip, none⟩, rest)
    | some (some n, rest) =>
      match chomping? rest with
      | some (chomping, rest) => some (⟨chomping, some n⟩, rest)
      | none => some (⟨.clip, some n⟩, rest)

/-- The text without a comment at its start. -/
def dropComment : List Char → List Char
  | '#' :: cs => cs.dropWhile fun c => !isBreak c
  | cs => cs

/-- The text behind the rest of a line that may hold only blanks and a comment. -/
def afterLine? (cs : List Char) : Option (List Char) :=
  match dropComment (cs.dropWhile isBlank) with
  | [] => some []
  | c :: rest => if isBreak c then some rest else none

/-- The lines of a text, each with its line break if it has one. -/
def linesOf : List Char → List (List Char × List Char)
  | [] => []
  | c :: cs =>
    if isBreak c then ([], [c]) :: linesOf cs
    else
      match linesOf cs with
      | [] => [([c], [])]
      | (line, lineEnd) :: rest => (c :: line, lineEnd) :: rest

/-- The text of lines. -/
def unlinesOf (lines : List (List Char × List Char)) : List Char :=
  lines.flatMap fun (line, lineEnd) => line ++ lineEnd

/-- The spaces at the start of a line, up to a limit. -/
def leadingSpaces (limit : Nat) (line : List Char) : Nat :=
  ((line.takeWhile (· == ' ')).take limit).length

/-- The indentation of a block scalar that does not tell it: that of its deepest line up to the
first one that is not empty. A tab behind the spaces of such a line is refused. -/
def detectIndent? (least : Nat) : List (List Char × List Char) → Option Nat
  | [] => some least
  | (line, lineEnd) :: rest =>
    let spaces := leadingSpaces line.length line
    match line.drop spaces with
    | '\t' :: _ => none
    | [] =>
      if lineEnd.isEmpty then some (max least spaces)
      else detectIndent? (max least spaces) rest
    | _ :: _ => some (max least spaces)

/-- What was read of a block scalar: its text in reverse, the line break behind the last line,
the breaks of the empty lines after it in reverse, and whether the last line began with a
blank. -/
structure BlockState where
  read : List Char
  lineEnd : List Char
  breaks : List Char
  blankStart : Bool

namespace BlockState

/-- What stands between the last line and one that begins with `c`: the line break is folded
into a space unless the scalar is literal or one of the two lines begins with a blank. -/
def join (folded : Bool) (s : BlockState) (c : Char) : List Char :=
  if folded && s.lineEnd == ['\n'] && !s.blankStart && !isBlank c then
    if s.breaks.isEmpty then [' '] else s.breaks
  else s.breaks ++ s.lineEnd

/-- The text of a scalar that ends here. -/
def finish (chomping : Chomping) (s : BlockState) : String :=
  let last := if chomping = .strip then [] else s.lineEnd
  let breaks := if chomping = .keep then s.breaks else []
  String.ofList (breaks ++ last ++ s.read).reverse

end BlockState

/-- Reads the lines of a block scalar that is indented to `indent`. -/
def blockLines? (folded : Bool) (chomping : Chomping) (indent : Nat) (s : BlockState) :
    List (List Char × List Char) → Option (String × List Char)
  | [] => some (s.finish chomping, [])
  | (line, lineEnd) :: rest =>
    let spaces := leadingSpaces indent line
    match line.drop spaces with
    | [] =>
      if lineEnd.isEmpty then some (s.finish chomping, [])
      else
        blockLines? folded chomping indent
          ⟨s.read, s.lineEnd, lineEnd ++ s.breaks, s.blankStart⟩ rest
    | c :: cs =>
      if spaces < indent then
        if c = '\t' then none
        else some (s.finish chomping, unlinesOf ((c :: cs, lineEnd) :: rest))
      else
        blockLines? folded chomping indent
          ⟨(c :: cs).reverse ++ (s.join folded c ++ s.read), lineEnd, [], isBlank c⟩ rest

/-- Reads a block scalar behind its indicator, inside something indented to `parent`. -/
def blockScalar? (folded : Bool) (parent : Int) (cs : List Char) :
    Option (String × List Char) :=
  match blockHeader? cs with
  | none => none
  | some (header, rest) =>
    match afterLine? rest with
    | none => none
    | some body =>
      let lines := linesOf body
      let indent? :=
        match header.increment with
        | some n => some (parent.toNat + n)
        | none => detectIndent? (max 1 (parent + 1).toNat) lines
      match indent? with
      | none => none
      | some indent => blockLines? folded header.chomping indent ⟨[], [], [], false⟩ lines

end Yaml

end Pipeline
