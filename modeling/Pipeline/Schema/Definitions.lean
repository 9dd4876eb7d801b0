import Pipeline.Schema
import Pipeline.Spec

/-!
# The schema of specifications

`Spec.schema` tells which values are written specifications, as far as the form goes: names of
fields, types of values, and what holds where nothing is said.
-/

namespace Pipeline

open Schema

/-- The schema of caches. -/
def Cache.schema : Schema :=
  describe ("A best-effort reusable directory, restored before and saved after a job.\n\n" ++
      "Jobs must not rely on the cache being present.") <|
    record [("key", text), ("path", text)]

/-- The schema of the variables of a service. -/
def EnvVar.schema : Schema := record [("name", text), ("value", withDefault (.str "") text)]

/-- The schema of services. -/
def Service.schema : Schema :=
  record [("name", text), ("image", text), ("arguments", withDefault .null optionalText),
    ("env_vars", optionalList (reference "EnvVar")),
    ("readiness_check_command",
      describe "Command run inside the service container; exit code 0 means ready." text),
    ("cpu_requirement", withDefault (.str standardCpu) text),
    ("memory_requirement", withDefault (.str standardMemory) text)]

/-- The schema of the kinds of parameters. -/
def ParamKind.schema : Schema :=
  oneOf [variant "text" [], variant "boolean" [], variant "integer" [],
    variant "choice" [("choices", list Schema.text)], variant "secret" []]

/-- The schema of parameters. -/
def ParamSpec.schema : Schema :=
  describe "A named parameter accepted by a job." <|
    record [("name", text), ("description", withDefault .null optionalText),
      ("allow_empty", withDefault (.bool false) flag),
      ("kind", withDefault ParamKind.text.encode (extensible "ParamType")),
      ("default_value", withDefault .null optionalText)]

/-- The schema of values for a parameter. -/
def ParamSupply.schema : Schema :=
  describe "Values supplied for a parameter of another job." <|
    record [("name", text), ("values", optionalList text),
      ("secret", withDefault (.bool false) flag)]

/-- The schema of credentials. -/
def Credential.schema : Schema :=
  describe ("Credential applied when cloning a submodule whose url matches \x60url\x60.\n\n" ++
      "Only http and https submodules can use credentials; the owning job checks this when it " ++
      "retrieves source.") <|
    record [("url", withDefault .null optionalText), ("user_name", withDefault .null optionalText),
      ("password_secret",
        describe "Name of the job secret holding the password or access token." <|
          withDefault .null optionalText)]

/-- The schema of dependencies on other jobs. -/
def JobDependency.schema : Schema :=
  describe ("Ordering and artifact dependency on another job of the same build spec.\n\n" ++
      "Only the job's own dependency list is checked here. Whether \x60job_name\x60 resolves, " ++
      "and whether the graph across jobs is acyclic, is decided at the build-spec and scheduler " ++
      "level.") <|
    record [("job_name", text), ("require_successful", withDefault (.bool true) flag),
      ("job_params", optionalList (reference "ParamSupply")),
      ("artifacts",
        describe "Artifacts of the upstream build to retrieve, as a pattern." <|
          withDefault .null optionalText),
      ("destination_path", withDefault .null optionalText)]

/-- The schema of the ways to tell a build. -/
def BuildSelector.schema : Schema :=
  oneOf [variant "last_finished" [], variant "last_finished_on_branch" [("branch", text)],
    variant "by_number" [("number", natural "uint64")], variant "by_query" [("query", text)]]

/-- The schema of dependencies on other projects. -/
def ProjectDependency.schema : Schema :=
  describe "Artifact dependency on a build of another project." <|
    record [("project_path", text),
      ("build", withDefault BuildSelector.lastFinished.encode (extensible "BuildSelector")),
      ("artifacts", withDefault (.str allArtifacts) text),
      ("destination_path", withDefault .null optionalText),
      ("access_token_secret",
        describe "Name of the job secret holding an access token for the other project." <|
          withDefault .null optionalText)]

/-- The schema of reports. -/
def Report.schema : Schema :=
  let files : List Field := [("report_name", text), ("file_patterns", text)]
  oneOf [variant "junit" files, variant "checkstyle" files, variant "jest" files,
    variant "clover" files, variant "markdown" (files ++ [("start_page", text)])]

/-- The schema of what happens to pull requests. -/
def PullRequestAction.schema : Schema := Schema.options (PullRequestAction.options.map Prod.fst)

/-- The schema of triggers. -/
def Trigger.schema : Schema :=
  describe "Condition under which a job runs automatically." <|
    oneOf
      [describe "A branch received new commits." <|
        variant "branch_update"
          [("branches", optionalList Schema.text), ("paths", optionalList Schema.text)],
       describe "A tag was created." <| variant "tag_create" [("tags", optionalList Schema.text)],
       describe "A pull request targeting a matching branch was opened or changed." <|
        variant "pull_request"
          [("branches", optionalList Schema.text), ("paths", optionalList Schema.text),
           ("actions", optionalList (reference "PullRequestAction"))],
       describe "A build of one of the job's dependencies finished." <|
        variant "dependency_finished" [("require_successful", withDefault (.bool true) flag)],
       describe "A cron schedule fired for a branch." <|
        variant "schedule"
          [("cron_expression", Schema.text), ("branches", optionalList Schema.text)]]

/-- The schema of actions after a build. -/
def Action.schema : Schema :=
  describe ("An action gated by a condition over the finished build.\n\n" ++
      "\x60condition\x60 is evaluated by the external condition evaluator, the same one that " ++
      "handles retry conditions.") <|
    recordWith
      (oneOf
        [variant "create_tag"
          [("tag_name", text), ("tag_message", withDefault .null optionalText)],
         variant "run_job"
          [("job_name", text), ("job_params", optionalList (reference "ParamSupply"))],
         variant "send_notification" [("receivers", text)]])
      [("condition", withDefault (.str standardCondition) text)]

/-- The fields of a retry policy. -/
def RetryPolicy.schemaFields : List Field :=
  [("retry_condition", withDefault (.str standard.retryCondition) text),
   ("max_retries", withDefault (.nat standard.maxRetries.toNat) (natural "uint32")),
   ("retry_delay",
     describe "Delay before the first retry, in seconds." <|
       withDefault (.nat standard.retryDelay.toNat) (natural "uint32"))]

/-- The fields of a job, but for those of its retry policy. -/
def Job.schemaFields : List Field :=
  [("name", withDefault (.str "") text), ("param_specs", optionalList (reference "ParamSpec")),
   ("image", withDefault (.str "") text), ("commands", optionalList text),
   ("retrieve_source", withDefault (.bool true) flag),
   ("clone_depth", withDefault .null (optionalNatural "uint32")),
   ("submodule_credentials", optionalList (reference "SubmoduleCredential")),
   ("job_dependencies", optionalList (reference "JobDependency")),
   ("project_dependencies", optionalList (reference "ProjectDependency")),
   ("services", optionalList (reference "JobService")),
   ("artifacts",
     describe "Files to publish as artifacts, relative to the job workspace." <|
       withDefault .null optionalText),
   ("reports", optionalList (reference "JobReport")),
   ("triggers", optionalList (reference "JobTrigger")),
   ("caches", optionalList (reference "CacheSpec")),
   ("cpu_requirement", withDefault (.str standardCpu) text),
   ("memory_requirement", withDefault (.str standardMemory) text),
   ("timeout",
     describe "Timeout in seconds." <|
       withDefault (.nat standardTimeout.toNat) (natural "uint64")),
   ("post_build_actions", optionalList (reference "PostBuildAction"))]

/-- The schema of jobs, in which the fields of the retry policy stand beside the others. -/
def Job.schema : Schema :=
  describe ("When and how often a failed build is re-run.\n\n" ++
      "\x60retry_condition\x60 is an expression over the build outcome evaluated by an external " ++
      "condition evaluator. \x60max_retries\x60 and \x60retry_delay\x60 seed the exponential " ++
      "back-off: the first retry waits \x60retry_delay\x60 seconds and each following one " ++
      "waits longer. Both are unsigned, so a negative count or delay cannot be expressed.") <|
    record (schemaFields ++ RetryPolicy.schemaFields)

namespace Spec

/-- The definitions that the schema of specifications refers to. -/
def schemaDefinitions : List Field :=
  [("BuildSelector", BuildSelector.schema), ("CacheSpec", Cache.schema),
   ("EnvVar", EnvVar.schema), ("Job", Job.schema), ("JobDependency", JobDependency.schema),
   ("JobReport", Report.schema), ("JobService", Service.schema),
   ("JobTrigger", Trigger.schema), ("ParamSpec", ParamSpec.schema),
   ("ParamSupply", ParamSupply.schema), ("ParamType", ParamKind.schema),
   ("PostBuildAction", Action.schema), ("ProjectDependency", ProjectDependency.schema),
   ("PullRequestAction", PullRequestAction.schema), ("SubmoduleCredential", Credential.schema)]

/-- The schema of specifications. -/
def schema : Json :=
  document "BuildSpec"
    (record [("version", withDefault (.str standardVersion) text),
      ("jobs", optionalList (reference "Job"))])
    schemaDefinitions

end Spec

end Pipeline
