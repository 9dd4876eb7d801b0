import Pipeline.Text.Blank
import Pipeline.Text.Number

/-!
# Interpolated texts

A text may refer to variables as `@name@`. A literal `@` or backslash is written with a
backslash before it; a backslash before any other character stands for itself.

* `Interpolation.parse`: the literal and variable segments of a text.
* `Interpolation.render`: the written form of a list of segments.
* `Interpolation.Canonical`: the lists of segments that reading produces.
-/

namespace Pipeline

namespace Interpolation

/-- A piece of an interpolated text. -/
inductive Segment where
  /-- Text with its escapes resolved. -/
  | literal (text : String)
  /-- A reference to a variable, without the marks around its name. -/
  | variable (name : String)
  deriving DecidableEq, Repr, Inhabited

/-- Why a text cannot be read. Positions count the bytes of the UTF-8 form. -/
inductive Error where
  /-- A variable begins at the position and does not end on its line. -/
  | unterminated (position : Nat)
  /-- A variable with a blank name begins at the position. -/
  | emptyName (position : Nat)
  /-- The text ends with the first half of an escape. -/
  | danglingEscape
  deriving DecidableEq, Repr, Inhabited

/-- The wording of an error. -/
def Error.message : Error → String
  | .unterminated position =>
    "Unterminated variable starting at position " ++ Text.ofNat position
  | .emptyName position => "Empty variable name at position " ++ Text.ofNat position
  | .danglingEscape => "Dangling escape character at end of input"

/-- Where a reader stands: in literal text, behind a backslash, or inside the name of a
variable that began at a position. What was read is kept in reverse. -/
inductive Mode where
  | text (read : List Char)
  | escape (read : List Char)
  | name (start : Nat) (before read : List Char)
  deriving DecidableEq, Repr, Inhabited

/-- A literal segment, if there is any text for it. The text is given in reverse. -/
def flush (read : List Char) : List Segment :=
  if read.isEmpty then [] else [.literal (String.ofList read.reverse)]

/-- Reads on from a position of the text in the given mode. -/
def scan (position : Nat) : Mode → List Char → Except Error (List Segment)
  | .text read, [] => .ok (flush read)
  | .escape _, [] => .error .danglingEscape
  | .name start _ _, [] => .error (.unterminated start)
  | .text read, c :: cs =>
    let next := position + c.utf8Size
    if c = '\\' then scan next (.escape read) cs
    else if c = '@' then scan next (.name position read []) cs
    else scan next (.text (c :: read)) cs
  | .escape read, c :: cs =>
    let next := position + c.utf8Size
    if c = '@' ∨ c = '\\' then scan next (.text (c :: read)) cs
    else scan next (.text (c :: '\\' :: read)) cs
  | .name start before read, c :: cs =>
    let next := position + c.utf8Size
    if c = '\n' then .error (.unterminated start)
    else if c = '@' then
      if read.all Text.isBlankChar then .error (.emptyName start)
      else
        match scan next (.text []) cs with
        | .ok segments =>
          .ok (flush before ++ .variable (String.ofList read.reverse) :: segments)
        | .error e => .error e
    else scan next (.name start before (c :: read)) cs

/-- Splits a text into literal and variable segments. -/
def parse (s : String) : Except Error (List Segment) := scan 0 (.text []) s.toList

/-- The names of the variables among the segments, in order. -/
def names (segments : List Segment) : List String :=
  segments.filterMap fun
    | .variable name => some name
    | .literal _ => none

/-- The names of the variables that a text refers to, in order of appearance. -/
def variableNames (s : String) : Except Error (List String) :=
  match parse s with
  | .ok segments => .ok (names segments)
  | .error e => .error e

/-- Whether a text refers to a variable. A text that cannot be read counts as one that does:
its error is reported where it is read. -/
def hasVariables (s : String) : Bool :=
  match variableNames s with
  | .ok found => !found.isEmpty
  | .error _ => true

/-- Writes a character of a literal. -/
def escaped (c : Char) : List Char := if c = '@' ∨ c = '\\' then ['\\', c] else [c]

/-- The written form of a segment. -/
def Segment.render : Segment → List Char
  | .literal text => text.toList.flatMap escaped
  | .variable name => '@' :: name.toList ++ ['@']

/-- The written form of a list of segments. -/
def render (segments : List Segment) : String :=
  String.ofList (segments.flatMap Segment.render)

/-- A text that can stand between the marks of a variable. -/
def IsName (name : String) : Prop :=
  '@' ∉ name.toList ∧ '\n' ∉ name.toList ∧ Text.isBlank name = false

/-- Lists of segments that reading produces: literals are not empty and no two of them stand
side by side, and every variable has a name. -/
def Canonical : List Segment → Prop
  | [] => True
  | .literal _ :: .literal _ :: _ => False
  | .literal text :: rest => text ≠ "" ∧ Canonical rest
  | .variable name :: rest => IsName name ∧ Canonical rest

end Interpolation

end Pipeline
