import Pipeline.Spec

/-!
# Dispatching events

An event starts every job that has a trigger which it fires. `Spec.dispatch` lists these jobs in
order, each with the first of its triggers that fired.
-/

namespace Pipeline

/-- A job that an event starts, and the trigger that was fired with its position. -/
structure Dispatch where
  jobName : String
  triggerIndex : Nat
  trigger : Trigger
  deriving DecidableEq, Repr, Inhabited

namespace Dispatch

/-- The written form. -/
def encode (d : Dispatch) : Json :=
  .obj [("job_name", .str d.jobName), ("trigger_index", .nat d.triggerIndex),
    ("trigger", d.trigger.encode)]

end Dispatch

/-- The jobs that an event starts. -/
def Spec.dispatch (s : Spec) (e : Event) : List Dispatch :=
  s.jobs.filterMap fun j =>
    (j.matchedTrigger? e).map fun (i, t) => ⟨j.name, i, t⟩

end Pipeline
