import Pipeline.Text.Number

/-!
# Lengths of time

Lengths of time are counted in nanoseconds. They have up to 64 bits of whole seconds.
-/

namespace Pipeline

/-- A length of time in nanoseconds. -/
structure Duration where
  nanos : Nat
  deriving DecidableEq, Repr, Inhabited

namespace Duration

/-- How many nanoseconds a second has. -/
def secondNanos : Nat := 1000000000

/-- A length of whole seconds. -/
def ofSeconds (n : Nat) : Duration := ⟨n * secondNanos⟩

/-- The whole seconds. -/
def seconds (d : Duration) : Nat := d.nanos / secondNanos

/-- The nanoseconds beyond the whole seconds. -/
def subsecond (d : Duration) : Nat := d.nanos % secondNanos

/-- The shortest length that does not fit. -/
def limit : Nat := Text.wordLimit * secondNanos

/-- A multiple of a length, if it fits. -/
def times? (d : Duration) (n : Nat) : Option Duration :=
  if d.nanos * n < limit then some ⟨d.nanos * n⟩ else none

/-- The shorter one of two lengths. -/
def min (a b : Duration) : Duration := ⟨Nat.min a.nanos b.nanos⟩

end Duration

end Pipeline
