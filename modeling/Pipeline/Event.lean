import Pipeline.CommitId
import Pipeline.Source
import Pipeline.Text.Split

/-!
# Events

What happens in a project: references are updated, requests are opened, builds finish, scheduled
times are reached, and jobs are started by hand. Events may fire the triggers of jobs.

* `Event`: the events.
* `Event.updatedBranch?`, `Event.updatedTag?`: what a reference names.
-/

namespace Pipeline

/-- What happened to a pull request. -/
inductive PullRequestAction where
  | opened
  | updated
  | merged
  | discarded
  deriving DecidableEq, Repr, Inhabited

namespace PullRequestAction

/-- The written form. -/
def name : PullRequestAction → String
  | .opened => "opened"
  | .updated => "updated"
  | .merged => "merged"
  | .discarded => "discarded"

/-- The actions by name. -/
def options : List (String × PullRequestAction) :=
  [("opened", .opened), ("updated", .updated), ("merged", .merged), ("discarded", .discarded)]

/-- Reads the written form. -/
def decode? (s : Source) : Option PullRequestAction := s.oneOf? options

/-- The written form. -/
def encode (a : PullRequestAction) : Json := .str a.name

end PullRequestAction

/-- How a build ended. -/
inductive BuildStatus where
  | successful
  | failed
  | cancelled
  | timedOut
  deriving DecidableEq, Repr, Inhabited

namespace BuildStatus

/-- The written form. -/
def name : BuildStatus → String
  | .successful => "successful"
  | .failed => "failed"
  | .cancelled => "cancelled"
  | .timedOut => "timed_out"

/-- The outcomes by name. -/
def options : List (String × BuildStatus) :=
  [("successful", .successful), ("failed", .failed), ("cancelled", .cancelled),
   ("timed_out", .timedOut)]

/-- Reads the written form. -/
def decode? (s : Source) : Option BuildStatus := s.oneOf? options

/-- The written form. -/
def encode (b : BuildStatus) : Json := .str b.name

end BuildStatus

/-- The written form of a commit id. -/
def CommitId.encode (c : CommitId) : Json := .str c.text

/-- Reads a commit id. -/
def CommitId.decode? (s : Source) : Option CommitId := s.text?.bind CommitId.ofText?

/-- Something that happened in a project. -/
inductive Event where
  | refUpdated (refName : String) (oldCommit newCommit : CommitId) (changedFiles : List String)
  | pullRequest (action : PullRequestAction) (sourceBranch targetBranch : String)
      (changedFiles : List String)
  | buildFinished (jobName : String) (status : BuildStatus) (refName : Option String)
  | scheduledTimeReached (cronExpression branch : String)
  | manual (user : Option String)
  deriving DecidableEq, Repr

namespace Event

/-- The name of the kind of an event. -/
def kind : Event → String
  | .refUpdated .. => "ref_updated"
  | .pullRequest .. => "pull_request"
  | .buildFinished .. => "build_finished"
  | .scheduledTimeReached .. => "scheduled_time_reached"
  | .manual .. => "manual"

/-- What the names of branches begin with. -/
def branchStart : String := "refs/heads/"

/-- What the names of tags begin with. -/
def tagStart : String := "refs/tags/"

/-- The branch that was updated. -/
def updatedBranch? : Event → Option String
  | .refUpdated refName _ _ _ => Text.dropStart? branchStart refName
  | _ => none

/-- The tag that was updated. -/
def updatedTag? : Event → Option String
  | .refUpdated refName _ _ _ => Text.dropStart? tagStart refName
  | _ => none

/-- Reads the update of a reference. -/
def decodeRefUpdated? (s : Source) : Option Event := do
  let r ← s.record? ["ref_name", "old_commit", "new_commit", "changed_files"]
  let refName ← r.required "ref_name" Source.text?
  let oldCommit ← r.required "old_commit" CommitId.decode?
  let newCommit ← r.required "new_commit" CommitId.decode?
  let changedFiles ← r.withDefault "changed_files" [] Source.texts?
  some (.refUpdated refName oldCommit newCommit changedFiles)

/-- Reads a change of a pull request. -/
def decodePullRequest? (s : Source) : Option Event := do
  let r ← s.record? ["action", "source_branch", "target_branch", "changed_files"]
  let action ← r.required "action" PullRequestAction.decode?
  let sourceBranch ← r.required "source_branch" Source.text?
  let targetBranch ← r.required "target_branch" Source.text?
  let changedFiles ← r.withDefault "changed_files" [] Source.texts?
  some (.pullRequest action sourceBranch targetBranch changedFiles)

/-- Reads the end of a build. -/
def decodeBuildFinished? (s : Source) : Option Event := do
  let r ← s.record? ["job_name", "status", "ref_name"]
  let jobName ← r.required "job_name" Source.text?
  let status ← r.required "status" BuildStatus.decode?
  let refName ← r.withDefault "ref_name" none (Source.optional? Source.text?)
  some (.buildFinished jobName status refName)

/-- Reads that a scheduled time was reached. -/
def decodeScheduledTimeReached? (s : Source) : Option Event := do
  let r ← s.record? ["cron_expression", "branch"]
  let cronExpression ← r.required "cron_expression" Source.text?
  let branch ← r.required "branch" Source.text?
  some (.scheduledTimeReached cronExpression branch)

/-- Reads a start by hand. -/
def decodeManual? (s : Source) : Option Event := do
  let r ← s.record? ["user"]
  let user ← r.withDefault "user" none (Source.optional? Source.text?)
  some (.manual user)

/-- What the events of each kind are read from. -/
def readers : List (String × (Source → Option Event)) :=
  [("ref_updated", decodeRefUpdated?), ("pull_request", decodePullRequest?),
   ("build_finished", decodeBuildFinished?),
   ("scheduled_time_reached", decodeScheduledTimeReached?), ("manual", decodeManual?)]

/-- Reads the written form. -/
def decode? (s : Source) : Option Event := do
  let (label, body) ← s.tagged?
  let read ← label.pick? readers
  read body

/-- The written form. -/
def encode : Event → Json
  | .refUpdated refName oldCommit newCommit changedFiles =>
    .obj [("type", .str "ref_updated"), ("ref_name", .str refName),
      ("old_commit", oldCommit.encode), ("new_commit", newCommit.encode),
      ("changed_files", .texts changedFiles)]
  | .pullRequest action sourceBranch targetBranch changedFiles =>
    .obj [("type", .str "pull_request"), ("action", action.encode),
      ("source_branch", .str sourceBranch), ("target_branch", .str targetBranch),
      ("changed_files", .texts changedFiles)]
  | .buildFinished jobName status refName =>
    .obj [("type", .str "build_finished"), ("job_name", .str jobName),
      ("status", status.encode), ("ref_name", .optionalText refName)]
  | .scheduledTimeReached cronExpression branch =>
    .obj [("type", .str "scheduled_time_reached"), ("cron_expression", .str cronExpression),
      ("branch", .str branch)]
  | .manual user => .obj [("type", .str "manual"), ("user", .optionalText user)]

end Event

end Pipeline
