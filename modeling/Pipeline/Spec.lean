import Pipeline.Job

/-!
# Specifications

A specification is the list of the jobs of one revision of a project.

* `Spec`: the jobs, in order.
* `Spec.ofYaml?`: reads a specification.
* `Spec.check`: everything that must hold of the jobs and of their references to each other.
* `Spec.parse`: reads a specification of which all this holds.
* `Spec.select?`: the job that a selection names.
-/

namespace Pipeline

/-- The jobs of a project. -/
structure Spec where
  version : String
  jobs : List Job
  deriving DecidableEq, Repr, Inhabited

namespace Spec

/-- The version of a specification that tells none. -/
def standardVersion : String := "1"

/-- A specification of the given jobs. -/
def ofJobs (jobs : List Job) : Spec := ⟨standardVersion, jobs⟩

/-- The names of the jobs, in order. -/
def jobNames (s : Spec) : List String := s.jobs.map Job.name

/-- What is said of a name that no job has. -/
def notFoundMessage (name : String) : String := "Job not found: " ++ name

/-- The first job of the given name. -/
def job? (s : Spec) (name : String) : Option Job := s.jobs.find? fun j => j.name == name

/-- The name of the job that a selection is for. -/
def selectedName (selection : String) : String :=
  (Text.dropStart? Job.selectionStart selection).getD selection

/-- The job that a selection names: by its name alone, or behind `jobs/`. -/
def select? (s : Spec) (selection : String) : Option Job := s.job? (selectedName selection)

/-! ## Written form -/

/-- The written form. -/
def encode (s : Spec) : Json :=
  .obj [("version", .str s.version), ("jobs", .arr (s.jobs.map Job.encode))]

/-- Reads the written form. -/
def decode? (s : Source) : Option Spec := do
  let r ← s.record? ["version", "jobs"]
  let version ← r.withDefault "version" standardVersion Source.text?
  let jobs ← r.withDefault "jobs" [] (Source.list? Job.decode?)
  some { version, jobs }

/-- Reads a specification from a text. -/
def ofYaml? (text : String) : Option Spec :=
  (Yaml.Node.ofText? text).bind fun n => decode? (.yaml false n)

/-! ## Checks -/

/-- A reference from one job to another: to a job that there is, and not to itself. What is
blank is reported elsewhere. -/
def checkReference (known : List String) (owner target : String) : Check :=
  if Text.isBlank target then .pass
  else if target == owner then .fail "A job may not reference itself"
  else .require (known.contains target) (notFoundMessage target)

/-- The references of a job to other jobs. -/
def checkReferences (known : List String) (j : Job) : Check :=
  .all [.field "job_dependencies" (.each
      (fun d => .field "job_name" (checkReference known j.name d.jobName)) j.jobDependencies),
    .field "post_build_actions" (.each
      (fun a => .field "job_name" (.optional (checkReference known j.name) a.runJobName?))
      j.postBuildActions)]

/-- Everything that must hold of a specification. -/
def check (s : Spec) : Check :=
  .field "jobs" (.all [.each Job.check s.jobs,
    .noRepeats "Duplicate job" (.field "name") s.jobNames,
    .each (checkReferences s.jobNames) s.jobs])

/-- What is wrong with a specification. -/
def violations (s : Spec) : Violations := s.check.report

end Spec

/-- Why a text is not taken as a specification. -/
inductive SpecError where
  /-- The text does not have the form of a specification. -/
  | malformed
  /-- The specification has problems. -/
  | invalid (found : Violations)
  deriving DecidableEq, Repr, Inhabited

/-- Reads a specification from a text, and refuses one that has problems. -/
def Spec.parse (text : String) : Except SpecError Spec :=
  match Spec.ofYaml? text with
  | none => .error .malformed
  | some s => if s.violations.isEmpty then .ok s else .error (.invalid s.violations)

end Pipeline
