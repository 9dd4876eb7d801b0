import Pipeline.Action
import Pipeline.Cache
import Pipeline.Credential
import Pipeline.Dependency
import Pipeline.Interpolation
import Pipeline.Quantity
import Pipeline.Report
import Pipeline.Retry
import Pipeline.Service
import Pipeline.Trigger

/-!
# Jobs

A job is one unit of work of a specification: the image and commands that it runs, what it
depends on, what starts it, what it keeps and publishes, and when it is run again.

* `Job`: everything that is said of a job.
* `Job.encode`, `Job.decode?`: the written form, in which the fields of the retry policy stand
  beside those of the job.
* `Job.check`: everything that must hold of a job by itself.
* `Job.matchedTrigger?`: the first trigger that an event fires.
-/

namespace Pipeline

/-- A unit of work. The timeout is in seconds. -/
structure Job where
  name : String
  paramSpecs : List ParamSpec
  image : String
  commands : List String
  retrieveSource : Bool
  cloneDepth : Option UInt32
  submoduleCredentials : List Credential
  jobDependencies : List JobDependency
  projectDependencies : List ProjectDependency
  services : List Service
  artifacts : Option String
  reports : List Report
  triggers : List Trigger
  caches : List Cache
  cpuRequirement : String
  memoryRequirement : String
  timeout : UInt64
  postBuildActions : List Action
  retry : RetryPolicy
  deriving DecidableEq, Repr, Inhabited

namespace Job

/-- What a selection of a job may begin with. -/
def selectionStart : String := "jobs/"

/-- The names of the fields whose texts may refer to variables. -/
def interpolatedFields : List String :=
  ["image", "commands", "artifacts", "cpu_requirement", "memory_requirement"]

/-- Whether the texts of a field may refer to variables. -/
def isInterpolated (field : String) : Bool := interpolatedFields.contains field

/-- The processor time that a job needs if it says nothing. -/
def standardCpu : String := "250m"

/-- The memory that a job needs if it says nothing. -/
def standardMemory : String := "128m"

/-- The seconds that a job may take if it says nothing. -/
def standardTimeout : UInt64 := 3600

/-- A job of which only the name and what it runs are told. -/
def ofCommands (name image : String) (commands : List String) : Job where
  name := name
  paramSpecs := []
  image := image
  commands := commands
  retrieveSource := true
  cloneDepth := none
  submoduleCredentials := []
  jobDependencies := []
  projectDependencies := []
  services := []
  artifacts := none
  reports := []
  triggers := []
  caches := []
  cpuRequirement := standardCpu
  memoryRequirement := standardMemory
  timeout := standardTimeout
  postBuildActions := []
  retry := .standard

/-- The names of the jobs that have to be finished first. -/
def dependencyNames (j : Job) : List String := j.jobDependencies.map JobDependency.jobName

/-! ## Written form -/

/-- The names of the fields, but for those of the retry policy. -/
def fieldNames : List String :=
  ["name", "param_specs", "image", "commands", "retrieve_source", "clone_depth",
   "submodule_credentials", "job_dependencies", "project_dependencies", "services", "artifacts",
   "reports", "triggers", "caches", "cpu_requirement", "memory_requirement", "timeout",
   "post_build_actions"]

/-- The written form. -/
def encode (j : Job) : Json :=
  .obj ([("name", .str j.name), ("param_specs", .arr (j.paramSpecs.map ParamSpec.encode)),
    ("image", .str j.image), ("commands", .texts j.commands),
    ("retrieve_source", .bool j.retrieveSource),
    ("clone_depth", .optional (fun n => .nat n.toNat) j.cloneDepth),
    ("submodule_credentials", .arr (j.submoduleCredentials.map Credential.encode)),
    ("job_dependencies", .arr (j.jobDependencies.map JobDependency.encode)),
    ("project_dependencies", .arr (j.projectDependencies.map ProjectDependency.encode)),
    ("services", .arr (j.services.map Service.encode)),
    ("artifacts", .optionalText j.artifacts),
    ("reports", .arr (j.reports.map Report.encode)),
    ("triggers", .arr (j.triggers.map Trigger.encode)),
    ("caches", .arr (j.caches.map Cache.encode)),
    ("cpu_requirement", .str j.cpuRequirement),
    ("memory_requirement", .str j.memoryRequirement), ("timeout", .nat j.timeout.toNat),
    ("post_build_actions", .arr (j.postBuildActions.map Action.encode))] ++
    j.retry.encodeFields)

/-- Reads the written form. -/
def decode? (s : Source) : Option Job := do
  let (r, rest) ← s.members? fieldNames
  let name ← r.withDefault "name" "" Source.text?
  let paramSpecs ← r.withDefault "param_specs" [] (Source.list? ParamSpec.decode?)
  let image ← r.withDefault "image" "" Source.text?
  let commands ← r.withDefault "commands" [] Source.texts?
  let retrieveSource ← r.withDefault "retrieve_source" true Source.flag?
  let cloneDepth ← r.withDefault "clone_depth" none (Source.optional? Source.word32?)
  let submoduleCredentials ←
    r.withDefault "submodule_credentials" [] (Source.list? Credential.decode?)
  let jobDependencies ← r.withDefault "job_dependencies" [] (Source.list? JobDependency.decode?)
  let projectDependencies ←
    r.withDefault "project_dependencies" [] (Source.list? ProjectDependency.decode?)
  let services ← r.withDefault "services" [] (Source.list? Service.decode?)
  let artifacts ← r.withDefault "artifacts" none (Source.optional? Source.text?)
  let reports ← r.withDefault "reports" [] (Source.list? Report.decode?)
  let triggers ← r.withDefault "triggers" [] (Source.list? Trigger.decode?)
  let caches ← r.withDefault "caches" [] (Source.list? Cache.decode?)
  let cpuRequirement ← r.withDefault "cpu_requirement" standardCpu Source.text?
  let memoryRequirement ← r.withDefault "memory_requirement" standardMemory Source.text?
  let timeout ← r.withDefault "timeout" standardTimeout Source.word64?
  let postBuildActions ← r.withDefault "post_build_actions" [] (Source.list? Action.decode?)
  let retry ← RetryPolicy.decode? rest
  some { name, paramSpecs, image, commands, retrieveSource, cloneDepth, submoduleCredentials,
         jobDependencies, projectDependencies, services, artifacts, reports, triggers, caches,
         cpuRequirement, memoryRequirement, timeout, postBuildActions, retry }

/-! ## Checks -/

/-- References to variables are well-formed. -/
def checkInterpolation (s : String) : Check :=
  match Interpolation.parse s with
  | .ok _ => .pass
  | .error e => .fail e.message

/-- The image and the commands. -/
def checkExecution (j : Job) : Check :=
  .all [.field "image" (.notEmpty j.image), .field "image" (checkInterpolation j.image),
    .field "commands" (.require (!j.commands.isEmpty) Check.emptyMessage),
    .field "commands" (.each checkInterpolation j.commands),
    .field "artifacts" (.optional checkInterpolation j.artifacts),
    .field "services" (.each Service.check j.services),
    .field "services" (.noRepeats "Duplicate service" (.field "name")
      (j.services.map Service.name)),
    .field "reports" (.each Report.check j.reports),
    .field "reports" (.noRepeats "Duplicate report" (.field "report_name")
      (j.reports.map Report.reportName))]

/-- The caches. Keys and paths are compared independently. -/
def checkCaches (j : Job) : Check :=
  .field "caches" (.all [.each Cache.check j.caches,
    .noRepeats "Duplicate key" (.field "key") (j.caches.map Cache.key),
    .noRepeats "Duplicate path" (.field "path") (j.caches.map Cache.path)])

/-- The dependencies. -/
def checkDependencies (j : Job) : Check :=
  .all [.field "job_dependencies" (.each JobDependency.check j.jobDependencies),
    .field "job_dependencies" (.noRepeats "Duplicate dependency" (.field "job_name")
      j.dependencyNames),
    .field "project_dependencies" (.each ProjectDependency.check j.projectDependencies)]

/-- The parameters. -/
def checkParamSpecs (j : Job) : Check :=
  .field "param_specs" (.all [.each ParamSpec.check j.paramSpecs,
    .noRepeats "Duplicate parameter spec" (.field "name") (j.paramSpecs.map ParamSpec.name)])

/-- A credential for an address to which it can be sent. -/
def checkCredential (c : Credential) : Check :=
  .field "url" (.require c.isWeb
    "Can only provide credentials for submodules accessing via http/https")

/-- How the source is retrieved, if it is. -/
def checkSource (j : Job) : Check :=
  if j.retrieveSource then
    .all [.field "clone_depth" (.require (j.cloneDepth != some 0) "Clone depth must be positive"),
      .field "submodule_credentials" (.each checkCredential j.submoduleCredentials)]
  else .pass

/-- A resource requirement: a quantity, unless it refers to variables. -/
def checkRequirement (s : String) : Check :=
  if Text.isBlank s then .fail Check.emptyMessage
  else if Interpolation.hasVariables s then checkInterpolation s
  else .require (Quantity.isQuantity (Text.trim s)) ("Invalid resource quantity: " ++ s)

/-- What the job needs, and how long it may take. -/
def checkResources (j : Job) : Check :=
  .all [.field "cpu_requirement" (checkRequirement j.cpuRequirement),
    .field "memory_requirement" (checkRequirement j.memoryRequirement),
    .field "timeout" (.require (j.timeout != 0) "Timeout must be positive")]

/-- Everything that must hold of a job by itself. -/
def check (j : Job) : Check :=
  .all [.field "name" (.notEmpty j.name), j.checkExecution, j.checkCaches, j.checkDependencies,
    j.checkParamSpecs, j.checkSource, .field "triggers" (.each Trigger.check j.triggers),
    j.checkResources, .field "post_build_actions" (.each Action.check j.postBuildActions),
    j.retry.check]

/-! ## Triggers -/

/-- Whether an event fires a trigger of the job. -/
def firesBy (j : Job) (e : Event) (t : Trigger) : Bool := t.fires j.dependencyNames e

/-- The first trigger that an event fires, with its position. -/
def matchedTrigger? (j : Job) (e : Event) : Option (Nat × Trigger) :=
  (j.triggers.zipIdx.find? fun (t, _) => j.firesBy e t).map fun (t, i) => (i, t)

end Job

end Pipeline
