import Pipeline.Glob.Match

/-!
# Lists of patterns

Branches, tags and files are chosen by lists of patterns. An empty list chooses everything; a
malformed pattern chooses nothing.

* `Glob.error?`: what is wrong with a pattern.
* `Glob.matchesAny`: whether a text is chosen.
* `Glob.touchesAny`: whether one of several files is chosen.
-/

namespace Pipeline

namespace Glob

/-- What is wrong with a pattern. -/
def error? (pattern : String) : Option String :=
  match ofText pattern with
  | .ok _ => none
  | .error e => some (e.message pattern)

/-- Whether a pattern is well-formed and matches a text. -/
def accepts (pattern text : String) : Bool :=
  match ofText pattern with
  | .ok p => p.accepts text
  | .error _ => false

/-- Whether a list of patterns chooses a text. -/
def matchesAny (patterns : List String) (text : String) : Bool :=
  patterns.isEmpty || patterns.any fun p => accepts p text

/-- Whether a list of patterns chooses one of several files. An empty list chooses even where
there are none. -/
def touchesAny (patterns files : List String) : Bool :=
  patterns.isEmpty || files.any fun f => patterns.any fun p => accepts p f

end Glob

end Pipeline
