import Pipeline.Proofs.CommitId
import Pipeline.Proofs.RoundTrip.Source
import Pipeline.Trigger

/-!
# Events and triggers are read as they are written

`Event.decode?_encode`, `Trigger.decode?_encode`: what is written for an event or a trigger is
read as the same one. The parts that are one of several names, and the ids of commits, are read
back by the lemmas of the same name.
-/

namespace Pipeline

open Source

variable {settled : Bool}

@[simp] theorem PullRequestAction.decode?_encode (a : PullRequestAction) :
    decode? (.json settled a.encode) = some a :=
  oneOf?_str (by cases a <;> rfl)

@[simp] theorem BuildStatus.decode?_encode (b : BuildStatus) :
    decode? (.json settled b.encode) = some b :=
  oneOf?_str (by cases b <;> rfl)

@[simp] theorem CommitId.decode?_encode (c : CommitId) :
    decode? (.json settled c.encode) = some c := by
  rw [decode?, encode, text?_str, Option.bind_some, ofText?_text]

@[simp] theorem Event.decode?_encode (e : Event) : decode? (.json settled e.encode) = some e := by
  cases e with
  | refUpdated refName oldCommit newCommit changedFiles =>
    refine read_kind (by simp [kindKey]) rfl ?_
    simp [decodeRefUpdated?, record?_obj]
  | pullRequest action sourceBranch targetBranch changedFiles =>
    refine read_kind (by simp [kindKey]) rfl ?_
    simp [decodePullRequest?, record?_obj]
  | buildFinished jobName status refName =>
    refine read_kind (by simp [kindKey]) rfl ?_
    simp [decodeBuildFinished?, record?_obj]
  | scheduledTimeReached cronExpression branch =>
    refine read_kind (by simp [kindKey]) rfl ?_
    simp [decodeScheduledTimeReached?, record?_obj]
  | manual user =>
    refine read_kind (by simp [kindKey]) rfl ?_
    simp [decodeManual?, record?_obj]

@[simp] theorem Trigger.decode?_encode (t : Trigger) :
    decode? (.json settled t.encode) = some t := by
  cases t with
  | branchUpdate branches paths =>
    refine read_kind (by simp [kindKey]) rfl ?_
    simp [decodeBranchUpdate?, record?_obj]
  | tagCreate tags =>
    refine read_kind (by simp [kindKey]) rfl ?_
    simp [decodeTagCreate?, record?_obj]
  | pullRequest branches paths actions =>
    refine read_kind (by simp [kindKey]) rfl ?_
    simp [decodePullRequest?, record?_obj]
  | dependencyFinished requireSuccessful =>
    refine read_kind (by simp [kindKey]) rfl ?_
    simp [decodeDependencyFinished?, record?_obj]
  | schedule cronExpression branches =>
    refine read_kind (by simp [kindKey]) rfl ?_
    simp [decodeSchedule?, record?_obj]

end Pipeline
