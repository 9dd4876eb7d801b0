import Pipeline.Duration
import Pipeline.Spec

/-!
# Waiting before retries

The first retry of a build waits for the delay of its policy, and every further one waits twice
as long as the one before, up to a limit.

* `Backoff`: how often and how long to wait.
* `Backoff.delay?`: how long to wait before a retry.
* `Backoff.delays`: how long to wait before each retry.
* `Spec.retryDelays?`: the retries of a selected job, with their delays in seconds.
-/

namespace Pipeline

/-- How often a build is run again, and how long to wait: at first, and at the most. -/
structure Backoff where
  maxRetries : UInt32
  base : Duration
  maxDelay : Duration
  deriving DecidableEq, Repr, Inhabited

namespace Backoff

/-- An hour. -/
def standardLimit : Duration := .ofSeconds 3600

/-- What a policy says. -/
def ofPolicy (p : RetryPolicy) : Backoff :=
  ⟨p.maxRetries, .ofSeconds p.retryDelay.toNat, standardLimit⟩

/-- The same with another limit. -/
def withLimit (b : Backoff) (limit : Duration) : Backoff := { b with maxDelay := limit }

/-- What the base is multiplied with before a retry: it doubles from one to the next, as long as
32 bits hold it, and then is the greatest such number. -/
def factor (attempt : Nat) : Nat :=
  if attempt ≤ 32 then Nat.pow 2 (attempt - 1) else Nat.pow 2 32 - 1

/-- How long to wait before a retry, counted from one, if there is such a retry. -/
def delay? (b : Backoff) (attempt : Nat) : Option Duration :=
  if attempt = 0 ∨ b.maxRetries.toNat < attempt then none
  else some (((b.base.times? (factor attempt)).getD b.maxDelay).min b.maxDelay)

/-- How long to wait before each retry, up to the first one that there is no wait for. -/
def delays (b : Backoff) : List Duration :=
  let found := (List.range b.maxRetries.toNat).map fun i => b.delay? (i + 1)
  (found.takeWhile Option.isSome).filterMap id

end Backoff

/-- The retries of the job that a selection names, each with its delay in seconds, if there is
such a job. -/
def Spec.retryDelays? (s : Spec) (selection : String) : Option (List (Nat × Nat)) :=
  (s.select? selection).map fun j =>
    if j.retry.isEnabled then
      (Backoff.ofPolicy j.retry).delays.zipIdx.map fun (d, i) => (i + 1, d.seconds)
    else []

end Pipeline
