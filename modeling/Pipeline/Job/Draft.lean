import Pipeline.Job

/-!
# Jobs that are being changed

A draft is a job together with the table of its parameters by name. The table is made when it is
first asked for and kept from then on; a new list of parameters discards it.

* `JobDraft.setParamSpecs`: replaces the parameters.
* `JobDraft.paramTable`: the parameters by name.
* `JobDraft.assign?`: replaces another field.
-/

namespace Pipeline

/-- A job that is being changed, with the table of its parameters if it has been made. -/
structure JobDraft where
  job : Job
  table : Option ParamSpec.Table
  deriving DecidableEq, Repr, Inhabited

namespace JobDraft

/-- A draft of a job, without a table. -/
def ofJob (j : Job) : JobDraft := ⟨j, none⟩

/-- The draft with other parameters. -/
def setParamSpecs (d : JobDraft) (specs : List ParamSpec) : JobDraft :=
  ⟨{ d.job with paramSpecs := specs }, none⟩

/-- The parameters by name, and the draft that keeps them. -/
def paramTable (d : JobDraft) : ParamSpec.Table × JobDraft :=
  match d.table with
  | some t => (t, d)
  | none =>
    let t := ParamSpec.lookup d.job.paramSpecs
    (t, { d with table := some t })

/-- How the fields other than the parameters are replaced: each one is read, and the job changed
by it. -/
def assigners : List (String × (Source → Option (Job → Job))) :=
  [("name", fun s => s.text?.map fun v j => { j with name := v }),
   ("image", fun s => s.text?.map fun v j => { j with image := v }),
   ("commands", fun s => s.texts?.map fun v j => { j with commands := v }),
   ("retrieve_source", fun s => s.flag?.map fun v j => { j with retrieveSource := v }),
   ("clone_depth", fun s =>
      (s.optional? Source.word32?).map fun v j => { j with cloneDepth := v }),
   ("submodule_credentials", fun s =>
      (s.list? Credential.decode?).map fun v j => { j with submoduleCredentials := v }),
   ("job_dependencies", fun s =>
      (s.list? JobDependency.decode?).map fun v j => { j with jobDependencies := v }),
   ("project_dependencies", fun s =>
      (s.list? ProjectDependency.decode?).map fun v j => { j with projectDependencies := v }),
   ("services", fun s => (s.list? Service.decode?).map fun v j => { j with services := v }),
   ("artifacts", fun s =>
      (s.optional? Source.text?).map fun v j => { j with artifacts := v }),
   ("reports", fun s => (s.list? Report.decode?).map fun v j => { j with reports := v }),
   ("triggers", fun s => (s.list? Trigger.decode?).map fun v j => { j with triggers := v }),
   ("caches", fun s => (s.list? Cache.decode?).map fun v j => { j with caches := v }),
   ("cpu_requirement", fun s => s.text?.map fun v j => { j with cpuRequirement := v }),
   ("memory_requirement", fun s => s.text?.map fun v j => { j with memoryRequirement := v }),
   ("timeout", fun s => s.word64?.map fun v j => { j with timeout := v }),
   ("post_build_actions", fun s =>
      (s.list? Action.decode?).map fun v j => { j with postBuildActions := v }),
   ("retry", fun s => (RetryPolicy.decode? s).map fun v j => { j with retry := v })]

/-- Replaces a field other than the parameters by a value that is read. -/
def assign? (d : JobDraft) (field : String) (s : Source) : Option JobDraft :=
  ((assigners.lookup field).bind fun read => read s).map fun change =>
    { d with job := change d.job }

end JobDraft

end Pipeline
