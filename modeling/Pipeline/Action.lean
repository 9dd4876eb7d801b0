import Pipeline.Param

/-!
# Actions after a build

An action is taken when a build is finished and meets a condition: a tag is created, another job
is run, or a notification is sent.
-/

namespace Pipeline

/-- What is done. -/
inductive ActionKind where
  | createTag (tagName : String) (tagMessage : Option String)
  | runJob (jobName : String) (jobParams : List ParamSupply)
  | sendNotification (receivers : String)
  deriving DecidableEq, Repr, Inhabited

namespace ActionKind

/-- Reads the creation of a tag. -/
def decodeCreateTag? (s : Source) : Option ActionKind := do
  let r ← s.record? ["tag_name", "tag_message"]
  let tagName ← r.required "tag_name" Source.text?
  let tagMessage ← r.withDefault "tag_message" none (Source.optional? Source.text?)
  some (.createTag tagName tagMessage)

/-- Reads the run of a job. -/
def decodeRunJob? (s : Source) : Option ActionKind := do
  let r ← s.record? ["job_name", "job_params"]
  let jobName ← r.required "job_name" Source.text?
  let jobParams ← r.withDefault "job_params" [] (Source.list? ParamSupply.decode?)
  some (.runJob jobName jobParams)

/-- Reads a notification. -/
def decodeSendNotification? (s : Source) : Option ActionKind := do
  let r ← s.record? ["receivers"]
  let receivers ← r.required "receivers" Source.text?
  some (.sendNotification receivers)

/-- What the actions of each kind are read from. -/
def readers : List (String × (Source → Option ActionKind)) :=
  [("create_tag", decodeCreateTag?), ("run_job", decodeRunJob?),
   ("send_notification", decodeSendNotification?)]

/-- Reads the written form. -/
def decode? (s : Source) : Option ActionKind := do
  let (label, body) ← s.tagged?
  let read ← label.pick? readers
  read body

/-- The fields of the written form. -/
def encodeFields : ActionKind → List (String × Json)
  | .createTag tagName tagMessage =>
    [("type", .str "create_tag"), ("tag_name", .str tagName),
     ("tag_message", .optionalText tagMessage)]
  | .runJob jobName jobParams =>
    [("type", .str "run_job"), ("job_name", .str jobName),
     ("job_params", .arr (jobParams.map ParamSupply.encode))]
  | .sendNotification receivers =>
    [("type", .str "send_notification"), ("receivers", .str receivers)]

/-- What an action needs is told. -/
def check : ActionKind → Check
  | .createTag tagName _ => .field "tag_name" (.notEmpty tagName)
  | .runJob jobName jobParams =>
    .all [.field "job_name" (.notEmpty jobName),
      .field "job_params" (ParamSupply.checkAll jobParams)]
  | .sendNotification receivers => .field "receivers" (.notEmpty receivers)

end ActionKind

/-- An action and the condition under which it is taken. -/
structure Action where
  condition : String
  kind : ActionKind
  deriving DecidableEq, Repr, Inhabited

namespace Action

/-- The condition that holds where none is told. -/
def standardCondition : String := "successful"

/-- The job that is run, if one is. -/
def runJobName? (a : Action) : Option String :=
  match a.kind with
  | .runJob jobName _ => some jobName
  | _ => none

/-- The written form: the fields of what is done stand beside the condition. -/
def encode (a : Action) : Json := .obj (("condition", .str a.condition) :: a.kind.encodeFields)

/-- Reads the written form. -/
def decode? (s : Source) : Option Action := do
  let (r, rest) ← s.members? ["condition"]
  let condition ← r.withDefault "condition" standardCondition Source.text?
  let kind ← ActionKind.decode? rest
  some { condition, kind }

/-- There is a condition, and what the action needs is told. -/
def check (a : Action) : Check :=
  .all [.field "condition" (.notEmpty a.condition), a.kind.check]

end Action

end Pipeline
