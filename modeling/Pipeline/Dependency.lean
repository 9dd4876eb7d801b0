import Pipeline.Param

/-!
# Dependencies

A job may wait for other jobs of its own specification, and may use what builds of other
projects published.

* `JobDependency`: another job that has to be finished first.
* `ProjectDependency`, `BuildSelector`: a build of another project.
-/

namespace Pipeline

/-- Another job of the specification, which has to be finished first. -/
structure JobDependency where
  jobName : String
  requireSuccessful : Bool
  jobParams : List ParamSupply
  artifacts : Option String
  destinationPath : Option String
  deriving DecidableEq, Repr, Inhabited

namespace JobDependency

/-- The dependency on a job of which nothing more is said. -/
def ofName (jobName : String) : JobDependency := ⟨jobName, true, [], none, none⟩

/-- The written form. -/
def encode (d : JobDependency) : Json :=
  .obj [("job_name", .str d.jobName), ("require_successful", .bool d.requireSuccessful),
    ("job_params", .arr (d.jobParams.map ParamSupply.encode)),
    ("artifacts", .optionalText d.artifacts),
    ("destination_path", .optionalText d.destinationPath)]

/-- Reads the written form. -/
def decode? (s : Source) : Option JobDependency := do
  let r ← s.record?
    ["job_name", "require_successful", "job_params", "artifacts", "destination_path"]
  let jobName ← r.required "job_name" Source.text?
  let requireSuccessful ← r.withDefault "require_successful" true Source.flag?
  let jobParams ← r.withDefault "job_params" [] (Source.list? ParamSupply.decode?)
  let artifacts ← r.withDefault "artifacts" none (Source.optional? Source.text?)
  let destinationPath ← r.withDefault "destination_path" none (Source.optional? Source.text?)
  some { jobName, requireSuccessful, jobParams, artifacts, destinationPath }

/-- The other job has a name, and its parameters are well supplied. -/
def check (d : JobDependency) : Check :=
  .all [.field "job_name" (.notEmpty d.jobName),
    .field "job_params" (ParamSupply.checkAll d.jobParams)]

end JobDependency

/-- Which build of a project is meant. -/
inductive BuildSelector where
  | lastFinished
  | lastFinishedOnBranch (branch : String)
  | byNumber (number : UInt64)
  | byQuery (query : String)
  deriving DecidableEq, Repr, Inhabited

namespace BuildSelector

/-- What the selectors of each kind are read from. -/
def readers : List (String × (Source → Option BuildSelector)) :=
  [("last_finished", fun s => s.noFields?.map fun _ => .lastFinished),
   ("last_finished_on_branch", fun s => do
      let r ← s.record? ["branch"]
      let branch ← r.required "branch" Source.text?
      some (.lastFinishedOnBranch branch)),
   ("by_number", fun s => do
      let r ← s.record? ["number"]
      let number ← r.required "number" Source.word64?
      some (.byNumber number)),
   ("by_query", fun s => do
      let r ← s.record? ["query"]
      let query ← r.required "query" Source.text?
      some (.byQuery query))]

/-- Reads the written form. -/
def decode? (s : Source) : Option BuildSelector := do
  let (label, body) ← s.tagged?
  let read ← label.pick? readers
  read body

/-- The written form. -/
def encode : BuildSelector → Json
  | .lastFinished => .obj [("type", .str "last_finished")]
  | .lastFinishedOnBranch branch =>
    .obj [("type", .str "last_finished_on_branch"), ("branch", .str branch)]
  | .byNumber number => .obj [("type", .str "by_number"), ("number", .nat number.toNat)]
  | .byQuery query => .obj [("type", .str "by_query"), ("query", .str query)]

/-- The branch and the query are not blank, and builds are numbered from one. -/
def check : BuildSelector → Check
  | .lastFinished => .pass
  | .lastFinishedOnBranch branch => .field "branch" (.notEmpty branch)
  | .byNumber number => .field "number" (.require (number != 0) "Build number must be positive")
  | .byQuery query => .field "query" (.notEmpty query)

end BuildSelector

/-- A build of another project, whose artifacts are used. -/
structure ProjectDependency where
  projectPath : String
  build : BuildSelector
  artifacts : String
  destinationPath : Option String
  accessTokenSecret : Option String
  deriving DecidableEq, Repr, Inhabited

namespace ProjectDependency

/-- The pattern for all artifacts, which are used where none are told. -/
def allArtifacts : String := "**"

/-- The written form. -/
def encode (d : ProjectDependency) : Json :=
  .obj [("project_path", .str d.projectPath), ("build", d.build.encode),
    ("artifacts", .str d.artifacts), ("destination_path", .optionalText d.destinationPath),
    ("access_token_secret", .optionalText d.accessTokenSecret)]

/-- Reads the written form. -/
def decode? (s : Source) : Option ProjectDependency := do
  let r ← s.record?
    ["project_path", "build", "artifacts", "destination_path", "access_token_secret"]
  let projectPath ← r.required "project_path" Source.text?
  let build ← r.withDefault "build" .lastFinished BuildSelector.decode?
  let artifacts ← r.withDefault "artifacts" allArtifacts Source.text?
  let destinationPath ← r.withDefault "destination_path" none (Source.optional? Source.text?)
  let accessTokenSecret ←
    r.withDefault "access_token_secret" none (Source.optional? Source.text?)
  some { projectPath, build, artifacts, destinationPath, accessTokenSecret }

/-- The project, the artifacts and the build are told. -/
def check (d : ProjectDependency) : Check :=
  .all [.field "project_path" (.notEmpty d.projectPath),
    .field "artifacts" (.notEmpty d.artifacts), .field "build" d.build.check]

end ProjectDependency

end Pipeline
