/-!
# Words of YAML text

* `Yaml.Style`: how a scalar is written.
* `Yaml.Token`: the words of a stream of documents. The layout of block collections is made
  explicit: each of them begins and ends with a word of its own, and a key is announced before
  the text of the key.
-/

namespace Pipeline

namespace Yaml

/-- How a scalar is written. -/
inductive Style where
  | plain
  | quoted
  | literal
  | folded
  deriving DecidableEq, Repr, Inhabited

/-- A word of a stream of documents. -/
inductive Token where
  | version (major minor : Nat)
  | tagDirective (handle start : String)
  | documentStart
  | documentEnd
  | blockSequenceStart
  | blockMappingStart
  | blockEnd
  | flowSequenceStart
  | flowSequenceEnd
  | flowMappingStart
  | flowMappingEnd
  | blockEntry
  | flowEntry
  | key
  | value
  | alias (name : String)
  | anchor (name : String)
  | tag (handle suffix : String)
  | scalar (style : Style) (text : String)
  deriving DecidableEq, Repr, Inhabited

end Yaml

end Pipeline
