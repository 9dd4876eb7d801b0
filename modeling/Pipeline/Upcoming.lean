import Pipeline.Instant
import Pipeline.Spec

/-!
# Scheduled times

* `Trigger.fireTimes`: the next times at which a trigger fires.
* `Spec.upcoming`: the next time of every schedule of a specification, the earliest first.
-/

namespace Pipeline

namespace Trigger

/-- The next `count` seconds after a point in time at which a trigger fires. A trigger without a
well-formed schedule never does. -/
def fireTimes (t : Trigger) (after : Instant) (count : Nat) : List Nat :=
  match t.schedule? with
  | some s => s.timesAfter after.seconds count
  | none => []

end Trigger

/-- The next time of a schedule, with the job that it belongs to. -/
structure Fire where
  jobName : String
  cronExpression : String
  time : Nat
  deriving DecidableEq, Repr, Inhabited

namespace Fire

/-- The time as a point in time. -/
def instant (f : Fire) : Instant := ⟨f.time, 0⟩

/-- The next time of a trigger of a job. -/
def ofTrigger? (jobName : String) (after : Instant) (t : Trigger) : Option Fire :=
  match t with
  | .schedule cronExpression _ =>
    (t.fireTimes after 1).head?.map fun time => ⟨jobName, cronExpression, time⟩
  | _ => none

end Fire

namespace Spec

/-- The next time of every schedule, in the order of the jobs and of their triggers. -/
def fires (s : Spec) (after : Instant) : List Fire :=
  s.jobs.flatMap fun j => j.triggers.filterMap (Fire.ofTrigger? j.name after)

/-- The next time of every schedule, the earliest first. Equal times stay in order. -/
def upcoming (s : Spec) (after : Instant) : List Fire :=
  (s.fires after).mergeSort fun a b => a.time ≤ b.time

end Spec

end Pipeline
