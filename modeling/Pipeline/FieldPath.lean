import Pipeline.Text.Number
import Pipeline.Text.Blank
import Pipeline.Text.Split

/-!
# Places inside a specification

A path leads from the root of a document through field names and list positions to one value,
for example `jobs[2].caches[0].key`.

* `FieldPath.text`: the written form, fields separated by dots and positions in brackets.
* `FieldPath.ofText`: reads the written form. Every text is some path: parts that name
  nothing are skipped.
* `FieldPath.isUnder`: a path lies under another one that it begins with.
-/

namespace Pipeline

/-- One step of a path: into a named field, or to a position of a list. -/
inductive PathSegment where
  | field (name : String)
  | index (i : Nat)
  deriving DecidableEq, Repr, Inhabited

/-- The steps from the root of a document to one of its values. -/
abbrev FieldPath := List PathSegment

namespace PathSegment

/-- The written form of a step that is not the first one. -/
def text : PathSegment → String
  | .field name => "." ++ name
  | .index i => "[" ++ Text.ofNat i ++ "]"

/-- Whether a step goes to a position of a list. -/
def isIndex : PathSegment → Bool
  | .field _ => false
  | .index _ => true

end PathSegment

namespace FieldPath

/-- The path of the document itself. -/
def root : FieldPath := []

/-- The path one field further down. -/
def field (p : FieldPath) (name : String) : FieldPath := p ++ [.field name]

/-- The path one list position further down. -/
def index (p : FieldPath) (i : Nat) : FieldPath := p ++ [.index i]

/-- Whether `p` is `q` or leads to a place inside it. -/
def isUnder (p q : FieldPath) : Bool := q.isPrefixOf p

/-- The written form. No dot stands before a field that comes first. -/
def text : FieldPath → String
  | [] => ""
  | .field name :: rest => rest.foldl (fun s step => s ++ step.text) name
  | .index i :: rest =>
    rest.foldl (fun s step => s ++ step.text) (PathSegment.index i).text

/-- Reads what stands between an opening bracket and the next one. Closing brackets at the end
are dropped; what is no 64-bit number leads nowhere. -/
def readIndex? (cs : List Char) : Option PathSegment :=
  (Text.unsigned? Text.wordLimit (Text.dropEndWhile (· == ']') cs)).map .index

/-- Reads one part of a path, between two dots: a name, then positions in brackets. -/
def readPart (part : List Char) : FieldPath :=
  let (name, behind) := Text.cutAt '[' part
  let steps := ((behind.map (Text.pieces '[')).getD []).filterMap readIndex?
  if name.isEmpty then steps else .field (String.ofList name) :: steps

/-- Reads the written form of a path. -/
def ofText (s : String) : FieldPath := (Text.pieces '.' s.toList).flatMap readPart

end FieldPath

end Pipeline
