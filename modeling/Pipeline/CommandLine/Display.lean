import Pipeline.Backoff
import Pipeline.CommandLine.Outcome
import Pipeline.Dispatch
import Pipeline.Upcoming
import Pipeline.Validation

/-!
# What commands show

The results of commands, each with its value and with its lines for the eye.

* `ValidationReport.display`, `Spec.dispatchDisplay`, `JobGraph.display`, `Spec.retryDisplay?`,
  `Spec.upcomingDisplay`: the results.
* `ValidationReport.problemLines`: a line for each problem.
-/

namespace Pipeline

namespace ValidationReport

/-- A line for each problem. -/
def problemLines (r : ValidationReport) : List String :=
  (r.violations.map Violation.text ++ r.graphError.toList.map GraphError.message).map fun t =>
    "  ✗ " ++ t

/-- A line about a job. -/
def jobLine (j : Job) : String :=
  "    - " ++ j.name ++ " (" ++ Text.ofNat j.triggers.length ++ " triggers)"

/-- The report on the specification of a path. -/
def display (r : ValidationReport) (path : String) (s : Spec) : Display :=
  ⟨r.encode,
    if r.isValid then
      ("✓ " ++ path ++ " is valid (" ++ Text.ofNat r.jobs ++ " jobs)") :: s.jobs.map jobLine
    else ("✗ " ++ path ++ " has problems:") :: r.problemLines⟩

end ValidationReport

namespace Dispatch

/-- A job that an event starts, with the trigger in words. -/
def encodeInWords (d : Dispatch) : Json :=
  .obj [("job", .str d.jobName), ("trigger_index", .nat d.triggerIndex),
    ("trigger", .str d.trigger.text)]

/-- A line of the table of jobs that an event starts. -/
def tableLine (job index trigger : String) : String :=
  Text.padEnd 24 job ++ " " ++ Text.padEnd 8 index ++ " " ++ trigger

/-- The line for a job that an event starts. -/
def line (d : Dispatch) : String :=
  tableLine d.jobName (Text.ofNat d.triggerIndex) d.trigger.text

end Dispatch

/-- The jobs that an event starts. -/
def Spec.dispatchDisplay (s : Spec) (e : Event) : Display :=
  let rows := s.dispatch e
  ⟨.arr (rows.map Dispatch.encodeInWords),
    if rows.isEmpty then ["No jobs triggered by " ++ e.kind ++ " event"]
    else Dispatch.tableLine "JOB" "INDEX" "TRIGGER" :: rows.map Dispatch.line⟩

namespace JobGraph

/-- The line for a job at a place of an order, with the jobs that it depends on. -/
def orderLine (g : JobGraph) (place : Nat) (job : String) : String :=
  let needs := g.predecessors job
  Text.padStart 3 (Text.ofNat place) ++ ". " ++ job ++
    if needs.isEmpty then "" else " (after " ++ Text.joinWith ", " needs ++ ")"

/-- The jobs in order. -/
def display (g : JobGraph) (order : List String) : Display :=
  ⟨.texts order, order.zipIdx.map fun (job, i) => g.orderLine (i + 1) job⟩

end JobGraph

namespace Spec

/-- A retry and its delay in seconds. -/
def encodeRetry (attempt delay : Nat) : Json :=
  .obj [("attempt", .nat attempt), ("delay_secs", .nat delay)]

/-- A line of the table of retries. -/
def retryLine (attempt delay : String) : String := Text.padEnd 8 attempt ++ " " ++ delay

/-- The retries of the job that a selection names, if there is such a job. -/
def retryDisplay? (s : Spec) (selection : String) : Option Display :=
  (s.retryDelays? selection).map fun rows =>
    ⟨.arr (rows.map fun (attempt, delay) => encodeRetry attempt delay),
      if rows.isEmpty then ["Job " ++ selection ++ " is never retried"]
      else retryLine "ATTEMPT" "DELAY" ::
        rows.map fun (attempt, delay) =>
          retryLine (Text.ofNat attempt) (Text.ofNat delay ++ "s")⟩

end Spec

namespace Fire

/-- A scheduled time. -/
def encode (f : Fire) : Json :=
  .obj [("job", .str f.jobName), ("cron_expression", .str f.cronExpression),
    ("at", .str f.instant.text)]

/-- A line of the table of scheduled times. -/
def tableLine (job cron next : String) : String :=
  Text.padEnd 24 job ++ " " ++ Text.padEnd 20 cron ++ " " ++ next

/-- The line for a scheduled time. -/
def line (f : Fire) : String := tableLine f.jobName f.cronExpression f.instant.textWithOffset

end Fire

/-- The next scheduled times. -/
def Spec.upcomingDisplay (s : Spec) (now : Instant) : Display :=
  let rows := s.upcoming now
  ⟨.arr (rows.map Fire.encode),
    if rows.isEmpty then ["No schedule triggers"]
    else Fire.tableLine "JOB" "CRON" "NEXT" :: rows.map Fire.line⟩

end Pipeline
