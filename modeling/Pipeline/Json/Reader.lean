import Pipeline.Json.Token

/-!
# Reading JSON

`Json.ofText?` reads a whole text as one value. Values nest at most 127 levels deep. The fields
of an object are kept as they stand, repeated ones too.
-/

namespace Pipeline

namespace Json

/-- A list or object that is not complete yet; its parts are kept in reverse. -/
inductive Frame where
  | items (read : List Json)
  | fields (read : List (String × Json)) (key : String)
  deriving Inhabited

/-- What has to come next. -/
inductive Expectation where
  | value
  | itemOrEnd
  | keyOrEnd
  | key
  | colon
  | commaOrEnd
  | nothing
  deriving DecidableEq, Inhabited

/-- How deep values may nest. -/
def depthLimit : Nat := 127

/-- The open lists and objects, innermost first, what has to come next, and the value if it is
complete. -/
structure ReadState where
  frames : List Frame
  expected : Expectation
  result : Option Json

namespace ReadState

/-- Before the first word. -/
def start : ReadState := ⟨[], .value, none⟩

/-- A value is complete: it becomes a part of the innermost list or object. -/
def complete (v : Json) : List Frame → ReadState
  | [] => ⟨[], .nothing, some v⟩
  | .items read :: frames => ⟨.items (v :: read) :: frames, .commaOrEnd, none⟩
  | .fields read key :: frames => ⟨.fields ((key, v) :: read) "" :: frames, .commaOrEnd, none⟩

/-- A list or object begins. -/
def enter (frame : Frame) (expected : Expectation) (s : ReadState) : Option ReadState :=
  if s.frames.length < depthLimit then some ⟨frame :: s.frames, expected, none⟩ else none

/-- One word further. -/
def step? (s : ReadState) (t : Token) : Option ReadState :=
  match s.expected, t, s.frames with
  | .value, .scalar v, frames => some (complete v frames)
  | .itemOrEnd, .scalar v, frames => some (complete v frames)
  | .value, .openBracket, _ => s.enter (.items []) .itemOrEnd
  | .itemOrEnd, .openBracket, _ => s.enter (.items []) .itemOrEnd
  | .value, .openBrace, _ => s.enter (.fields [] "") .keyOrEnd
  | .itemOrEnd, .openBrace, _ => s.enter (.fields [] "") .keyOrEnd
  | .itemOrEnd, .closeBracket, .items read :: frames =>
    some (complete (.arr read.reverse) frames)
  | .commaOrEnd, .closeBracket, .items read :: frames =>
    some (complete (.arr read.reverse) frames)
  | .keyOrEnd, .closeBrace, .fields read _ :: frames =>
    some (complete (.obj read.reverse) frames)
  | .commaOrEnd, .closeBrace, .fields read _ :: frames =>
    some (complete (.obj read.reverse) frames)
  | .commaOrEnd, .comma, .items read :: frames => some ⟨.items read :: frames, .value, none⟩
  | .commaOrEnd, .comma, .fields read key :: frames =>
    some ⟨.fields read key :: frames, .key, none⟩
  | .keyOrEnd, .scalar (.str key), .fields read _ :: frames =>
    some ⟨.fields read key :: frames, .colon, none⟩
  | .key, .scalar (.str key), .fields read _ :: frames =>
    some ⟨.fields read key :: frames, .colon, none⟩
  | .colon, .colon, frames => some ⟨frames, .value, none⟩
  | _, _, _ => none

end ReadState

/-- The value that the words spell. -/
def ofTokens? (ts : List Token) : Option Json :=
  (ts.foldlM ReadState.step? ReadState.start).bind ReadState.result

/-- The value that a text spells. -/
def ofText? (s : String) : Option Json := (tokens? s).bind ofTokens?

end Json

end Pipeline
