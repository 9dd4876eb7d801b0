import Pipeline.Check
import Pipeline.Source

/-!
# Retry policies

When a build that failed is run again, how often, and how long to wait before the first time.
-/

namespace Pipeline

/-- When and how often a build is run again. The condition is an expression about the outcome
of the build; the delay is in seconds. -/
structure RetryPolicy where
  retryCondition : String
  maxRetries : UInt32
  retryDelay : UInt32
  deriving DecidableEq, Repr, Inhabited

namespace RetryPolicy

/-- The condition that no build meets. -/
def never : String := "never"

/-- What holds where nothing is said. -/
def standard : RetryPolicy := ⟨never, 3, 30⟩

/-- The names of the fields. -/
def fieldNames : List String := ["retry_condition", "max_retries", "retry_delay"]

/-- The fields of the written form. -/
def encodeFields (p : RetryPolicy) : List (String × Json) :=
  [("retry_condition", .str p.retryCondition), ("max_retries", .nat p.maxRetries.toNat),
   ("retry_delay", .nat p.retryDelay.toNat)]

/-- The written form. -/
def encode (p : RetryPolicy) : Json := .obj p.encodeFields

/-- Reads a policy from its fields. -/
def ofRecord? (r : Record) : Option RetryPolicy := do
  let retryCondition ← r.withDefault "retry_condition" standard.retryCondition Source.text?
  let maxRetries ← r.withDefault "max_retries" standard.maxRetries Source.word32?
  let retryDelay ← r.withDefault "retry_delay" standard.retryDelay Source.word32?
  some { retryCondition, maxRetries, retryDelay }

/-- Reads the written form. -/
def decode? (s : Source) : Option RetryPolicy := (s.record? fieldNames).bind ofRecord?

/-- Whether a build is ever run again. -/
def isEnabled (p : RetryPolicy) : Bool :=
  Text.trim p.retryCondition != never && 0 < p.maxRetries

/-- There is a condition. -/
def check (p : RetryPolicy) : Check := .field "retry_condition" (.notEmpty p.retryCondition)

end RetryPolicy

end Pipeline
