/-!
# Glob patterns

A pattern describes texts. `*` stands for any run of bytes without a slash, `?` for one byte that
is no slash, `[...]` for one byte of a set, and `\x7b...,...\x7d` for one of several patterns. A
backslash takes the special meaning from the next character. `**` crosses slashes where it
stands alone between two of them, or between one and an end of the pattern.

* `Glob.Token`: the parts of a pattern.
* `Glob.ofText?`: the parts of a written pattern, or the first error in it.
-/

namespace Pipeline

namespace Glob

/-- A part of a pattern. -/
inductive Token where
  /-- The character itself. -/
  | char (c : Char)
  /-- One byte that is no slash. -/
  | any
  /-- Any bytes without a slash. -/
  | star
  /-- Nothing, or any bytes up to a slash: `**` at the start. -/
  | leading
  /-- A slash and any bytes: `**` at the end. -/
  | trailing
  /-- A slash, or any bytes between two slashes: `**` in the middle. -/
  | between
  /-- One byte out of some ranges, or one that is in none of them. -/
  | oneOf (negated : Bool) (ranges : List (Char × Char))
  /-- One of several patterns. -/
  | choice (branches : List (List Token))
  deriving Inhabited, Repr

/-- Parts of a pattern, in order. -/
abbrev Pattern := List Token

/-- Why a pattern is malformed. -/
inductive Error where
  | unclosedClass
  | invalidRange (first last : Char)
  | unopenedChoice
  | unclosedChoice
  | danglingEscape
  deriving DecidableEq, Repr, Inhabited

/-- What is wrong. -/
def Error.reason : Error → String
  | .unclosedClass => "unclosed character class; missing ']'"
  | .invalidRange first last =>
    "invalid range; '" ++ String.ofList [first] ++ "' > '" ++ String.ofList [last] ++ "'"
  | .unopenedChoice =>
    "unopened alternate group; missing '\x7b' (maybe escape '\x7d' with '[\x7d]'?)"
  | .unclosedChoice =>
    "unclosed alternate group; missing '\x7d' (maybe escape '\x7b' with '[\x7b]'?)"
  | .danglingEscape => "dangling '\\'"

/-- The wording of an error in a written pattern. -/
def Error.message (pattern : String) (e : Error) : String :=
  "error parsing glob '" ++ pattern ++ "': " ++ e.reason

/-- A choice whose end was not read yet: the branches before the one that is being read, and
the parts read before the choice, all in reverse. -/
structure Group where
  branches : List Pattern
  before : Pattern
  deriving Inhabited

/-- What was read so far: the parts of the innermost branch in reverse, and the choices around
it, innermost first. -/
structure ReadState where
  parts : Pattern
  groups : List Group
  deriving Inhabited

namespace ReadState

/-- Before the first part. -/
def start : ReadState := ⟨[], []⟩

/-- One more part. -/
def push (s : ReadState) (t : Token) : ReadState := { s with parts := t :: s.parts }

/-- Two stars without a meaning of their own. -/
def pushStars (s : ReadState) : ReadState := (s.push .star).push .star

/-- The start of a choice. -/
def openGroup (s : ReadState) : ReadState := ⟨[], ⟨[], s.parts⟩ :: s.groups⟩

/-- The end of a branch and the start of another one; a comma outside of choices is a part. -/
def comma (s : ReadState) : ReadState :=
  match s.groups with
  | [] => s.push (.char ',')
  | g :: groups => ⟨[], ⟨s.parts.reverse :: g.branches, g.before⟩ :: groups⟩

/-- The end of a choice. -/
def closeGroup? (s : ReadState) : Option ReadState :=
  match s.groups with
  | [] => none
  | g :: groups => some ⟨.choice (s.parts.reverse :: g.branches).reverse :: g.before, groups⟩

/-- Puts a crossing `**` in the place of the last part, unless that is one at an end itself. -/
def cross (s : ReadState) (t : Token) : ReadState :=
  match s.parts with
  | .leading :: _ | .trailing :: _ => s
  | _ :: parts => { s with parts := t :: parts }
  | [] => s.push t

/-- Whether a `**` that follows the given character is one behind a slash, or at the start of a
branch. -/
def mayCross (s : ReadState) (previous : Option Char) : Bool :=
  previous == some '/' ||
    (!s.groups.isEmpty && (previous == some ',' || previous == some '\x7b'))

end ReadState

/-- A set of bytes whose end was not read yet: the ranges in reverse, whether nothing was read,
and whether the last character was a hyphen after the start of a range. -/
structure ClassState where
  negated : Bool
  ranges : List (Char × Char)
  first : Bool
  inRange : Bool
  deriving Inhabited

namespace ClassState

/-- One more character: it ends the last range, or begins one. -/
def push (s : ClassState) (c : Char) : Except Error ClassState :=
  match s.inRange, s.ranges with
  | true, (a, _) :: ranges =>
    if c < a then .error (.invalidRange a c)
    else .ok ⟨s.negated, (a, c) :: ranges, false, false⟩
  | _, ranges => .ok ⟨s.negated, (c, c) :: ranges, false, false⟩

/-- A hyphen: the sign of a range where it can be one. -/
def hyphen (s : ClassState) : Except Error ClassState :=
  if s.first || s.inRange then s.push '-' else .ok { s with inRange := true, first := false }

/-- The set, a hyphen at whose end stands for itself. -/
def finish (s : ClassState) : Token :=
  .oneOf s.negated (if s.inRange then ('-', '-') :: s.ranges else s.ranges).reverse

end ClassState

/-- Where the reader stands: between parts, behind the opening bracket of a set, inside a set,
or behind a backslash. -/
inductive ReadMode where
  | outside
  | classStart
  | inClass (s : ClassState)
  | escape
  deriving Inhabited

/-- Reads on behind the given character. -/
def readFrom (s : ReadState) (previous : Option Char) :
    ReadMode → List Char → Except Error Pattern
  | .outside, [] => if s.groups.isEmpty then .ok s.parts.reverse else .error .unclosedChoice
  | .classStart, [] => .error .unclosedClass
  | .inClass _, [] => .error .unclosedClass
  | .escape, [] => .error .danglingEscape
  | .escape, c :: cs => readFrom (s.push (.char c)) (some c) .outside cs
  | .classStart, c :: cs =>
    let empty : ClassState := ⟨c == '!' || c == '^', [], true, false⟩
    if empty.negated then readFrom s (some c) (.inClass empty) cs
    else
      match if c = '-' then empty.hyphen else empty.push c with
      | .ok k => readFrom s (some c) (.inClass k) cs
      | .error e => .error e
  | .inClass k, c :: cs =>
    if c = ']' ∧ k.first = false then readFrom (s.push k.finish) (some c) .outside cs
    else
      match if c = '-' then k.hyphen else k.push c with
      | .ok k => readFrom s (some c) (.inClass k) cs
      | .error e => .error e
  | .outside, '*' :: '*' :: '/' :: cs =>
    if s.parts.isEmpty then readFrom (s.push .leading) (some '/') .outside cs
    else if s.mayCross previous then readFrom (s.cross .between) (some '/') .outside cs
    else readFrom s.pushStars (some '*') .outside ('/' :: cs)
  | .outside, '*' :: '*' :: cs =>
    if s.parts.isEmpty then
      readFrom (if cs.isEmpty then s.push .leading else s.pushStars) (some '*') .outside cs
    else if s.mayCross previous &&
        (cs.isEmpty || (!s.groups.isEmpty && (cs.head? == some ',' || cs.head? == some '\x7d')))
    then readFrom (s.cross .trailing) (some '*') .outside cs
    else readFrom s.pushStars (some '*') .outside cs
  | .outside, c :: cs =>
    if c = '*' then readFrom (s.push .star) (some c) .outside cs
    else if c = '?' then readFrom (s.push .any) (some c) .outside cs
    else if c = '[' then readFrom s (some c) .classStart cs
    else if c = '\x7b' then readFrom s.openGroup (some c) .outside cs
    else if c = '\x7d' then
      match s.closeGroup? with
      | some s => readFrom s (some c) .outside cs
      | none => .error .unopenedChoice
    else if c = ',' then readFrom s.comma (some c) .outside cs
    else if c = '\\' then readFrom s (some c) .escape cs
    else readFrom (s.push (.char c)) (some c) .outside cs

/-- The parts of a written pattern. -/
def ofText (s : String) : Except Error Pattern := readFrom ReadState.start none .outside s.toList

end Glob

end Pipeline
