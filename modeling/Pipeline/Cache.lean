import Pipeline.Check
import Pipeline.Source

/-!
# Caches

A cache is a directory that a job finds as an earlier build left it, at the best. It has a key,
under which it is kept, and a path.
-/

namespace Pipeline

/-- A directory that is restored before a job and saved after it. -/
structure Cache where
  key : String
  path : String
  deriving DecidableEq, Repr, Inhabited

namespace Cache

/-- The written form. -/
def encode (c : Cache) : Json := .obj [("key", .str c.key), ("path", .str c.path)]

/-- Reads the written form. -/
def decode? (s : Source) : Option Cache := do
  let r ← s.record? ["key", "path"]
  let key ← r.required "key" Source.text?
  let path ← r.required "path" Source.text?
  some { key, path }

/-- Neither the key nor the path is blank. -/
def check (c : Cache) : Check :=
  .all [.field "key" (.notEmpty c.key), .field "path" (.notEmpty c.path)]

end Cache

end Pipeline
