import Pipeline.Cron.Schedule
import Pipeline.Event
import Pipeline.Check
import Pipeline.Glob

/-!
# Triggers

A trigger tells which events start a job.

* `Trigger`: the triggers.
* `Trigger.fires`: whether an event fires a trigger of a job with given dependencies.
* `Trigger.schedule?`: the schedule of a trigger that has a well-formed one.
* `Trigger.text`: a description.
-/

namespace Pipeline

/-- What starts a job. -/
inductive Trigger where
  /-- A branch received commits. -/
  | branchUpdate (branches paths : List String)
  /-- A tag was created. -/
  | tagCreate (tags : List String)
  /-- A pull request into a branch was opened or changed. -/
  | pullRequest (branches paths : List String) (actions : List PullRequestAction)
  /-- A build of a job that this one depends on finished. -/
  | dependencyFinished (requireSuccessful : Bool)
  /-- A time of a schedule was reached for a branch. -/
  | schedule (cronExpression : String) (branches : List String)
  deriving DecidableEq, Repr, Inhabited

namespace Trigger

/-- The name of the kind of a trigger. -/
def kind : Trigger → String
  | .branchUpdate .. => "branch_update"
  | .tagCreate .. => "tag_create"
  | .pullRequest .. => "pull_request"
  | .dependencyFinished .. => "dependency_finished"
  | .schedule .. => "schedule"

/-! ## Written form -/

/-- Reads a trigger for commits on branches. -/
def decodeBranchUpdate? (s : Source) : Option Trigger := do
  let r ← s.record? ["branches", "paths"]
  let branches ← r.withDefault "branches" [] Source.texts?
  let paths ← r.withDefault "paths" [] Source.texts?
  some (.branchUpdate branches paths)

/-- Reads a trigger for new tags. -/
def decodeTagCreate? (s : Source) : Option Trigger := do
  let r ← s.record? ["tags"]
  let tags ← r.withDefault "tags" [] Source.texts?
  some (.tagCreate tags)

/-- Reads a trigger for pull requests. -/
def decodePullRequest? (s : Source) : Option Trigger := do
  let r ← s.record? ["branches", "paths", "actions"]
  let branches ← r.withDefault "branches" [] Source.texts?
  let paths ← r.withDefault "paths" [] Source.texts?
  let actions ← r.withDefault "actions" [] (Source.list? PullRequestAction.decode?)
  some (.pullRequest branches paths actions)

/-- Reads a trigger for builds of dependencies. -/
def decodeDependencyFinished? (s : Source) : Option Trigger := do
  let r ← s.record? ["require_successful"]
  let requireSuccessful ← r.withDefault "require_successful" true Source.flag?
  some (.dependencyFinished requireSuccessful)

/-- Reads a trigger for times. -/
def decodeSchedule? (s : Source) : Option Trigger := do
  let r ← s.record? ["cron_expression", "branches"]
  let cronExpression ← r.required "cron_expression" Source.text?
  let branches ← r.withDefault "branches" [] Source.texts?
  some (.schedule cronExpression branches)

/-- What the triggers of each kind are read from. -/
def readers : List (String × (Source → Option Trigger)) :=
  [("branch_update", decodeBranchUpdate?), ("tag_create", decodeTagCreate?),
   ("pull_request", decodePullRequest?), ("dependency_finished", decodeDependencyFinished?),
   ("schedule", decodeSchedule?)]

/-- Reads the written form. -/
def decode? (s : Source) : Option Trigger := do
  let (label, body) ← s.tagged?
  let read ← label.pick? readers
  read body

/-- The written form. -/
def encode : Trigger → Json
  | .branchUpdate branches paths =>
    .obj [("type", .str "branch_update"), ("branches", .texts branches), ("paths", .texts paths)]
  | .tagCreate tags => .obj [("type", .str "tag_create"), ("tags", .texts tags)]
  | .pullRequest branches paths actions =>
    .obj [("type", .str "pull_request"), ("branches", .texts branches), ("paths", .texts paths),
      ("actions", .arr (actions.map PullRequestAction.encode))]
  | .dependencyFinished requireSuccessful =>
    .obj [("type", .str "dependency_finished"),
      ("require_successful", .bool requireSuccessful)]
  | .schedule cronExpression branches =>
    .obj [("type", .str "schedule"), ("cron_expression", .str cronExpression),
      ("branches", .texts branches)]

/-! ## Matching -/

/-- The actions that fire a trigger for pull requests that names none. -/
def standardActions : List PullRequestAction := [.opened, .updated]

/-- Whether an event fires a trigger of a job that depends on the given jobs. -/
def fires (t : Trigger) (dependencies : List String) (e : Event) : Bool :=
  match t, e with
  | .branchUpdate branches paths, .refUpdated _ _ newCommit changedFiles =>
    match e.updatedBranch? with
    | none => false
    | some branch =>
      !newCommit.isZero && Glob.matchesAny branches branch && Glob.touchesAny paths changedFiles
  | .tagCreate tags, .refUpdated _ oldCommit newCommit _ =>
    match e.updatedTag? with
    | none => false
    | some tag => oldCommit.isZero && !newCommit.isZero && Glob.matchesAny tags tag
  | .pullRequest branches paths actions, .pullRequest action _ targetBranch changedFiles =>
    (if actions.isEmpty then standardActions else actions).contains action &&
      Glob.matchesAny branches targetBranch && Glob.touchesAny paths changedFiles
  | .dependencyFinished requireSuccessful, .buildFinished jobName status _ =>
    dependencies.contains jobName && (!requireSuccessful || status == .successful)
  | .schedule cronExpression branches, .scheduledTimeReached fired branch =>
    Text.joinWords cronExpression == Text.joinWords fired && Glob.matchesAny branches branch
  | _, _ => false

/-- The schedule of a trigger, if it has one and its expression is well-formed. -/
def schedule? : Trigger → Option Cron.Schedule
  | .schedule cronExpression _ => (Cron.Schedule.ofText cronExpression).toOption
  | _ => none

/-! ## Checks -/

/-- A pattern is well-formed. -/
def checkPattern (pattern : String) : Check :=
  match Glob.error? pattern with
  | none => .pass
  | some reason => .fail ("Malformed pattern '" ++ pattern ++ "': " ++ reason)

/-- Every pattern of a list is well-formed. -/
def checkPatterns (patterns : List String) : Check := .each checkPattern patterns

/-- A cron expression is well-formed. -/
def checkCron (expression : String) : Check :=
  if Text.isBlank expression then .notEmpty expression
  else
    match Cron.Schedule.ofText expression with
    | .ok _ => .pass
    | .error e => .fail ("Invalid cron expression: " ++ e.message)

/-- The patterns and the schedule of a trigger are well-formed. -/
def check : Trigger → Check
  | .branchUpdate branches paths =>
    .all [.field "branches" (checkPatterns branches), .field "paths" (checkPatterns paths)]
  | .tagCreate tags => .field "tags" (checkPatterns tags)
  | .pullRequest branches paths _ =>
    .all [.field "branches" (checkPatterns branches), .field "paths" (checkPatterns paths)]
  | .dependencyFinished _ => .pass
  | .schedule cronExpression branches =>
    .all [.field "cron_expression" (checkCron cronExpression),
      .field "branches" (checkPatterns branches)]

/-! ## Description -/

/-- A list of patterns in words. -/
def patternsText (patterns : List String) : String :=
  if patterns.isEmpty then "any" else Text.joinWith ", " patterns

/-- A trigger in words. -/
def text : Trigger → String
  | .branchUpdate branches paths =>
    "branch update (branches: " ++ patternsText branches ++ "; paths: " ++
      patternsText paths ++ ")"
  | .tagCreate tags => "tag create (tags: " ++ patternsText tags ++ ")"
  | .pullRequest branches paths _ =>
    "pull request (target branches: " ++ patternsText branches ++ "; paths: " ++
      patternsText paths ++ ")"
  | .dependencyFinished true => "dependency finished successfully"
  | .dependencyFinished false => "dependency finished"
  | .schedule cronExpression branches =>
    "schedule '" ++ cronExpression ++ "' (branches: " ++ patternsText branches ++ ")"

end Trigger

end Pipeline
