import Pipeline.CommandLine.Command
import Pipeline.CommandLine.Display
import Pipeline.Json.Reader
import Pipeline.Query
import Pipeline.Schema.Definitions
import Pipeline.Spec.Starter

/-!
# Running commands

* `Command.run`: what a command writes and leaves.
* `Command.runArguments`: the same for the arguments that tell the command.

A command that is about a specification fails before it does anything if the specification is
missing or malformed. All but the check itself also fail if something is wrong with it.
-/

namespace Pipeline

namespace Workspace

/-- A command has written some text. -/
def wrote (w : Workspace) (output : String) : Outcome := ⟨output, none, w⟩

/-- A command has failed. -/
def failed (w : Workspace) (output : String) (e : Failure) : Outcome := ⟨output, some e, w⟩

/-- A command has shown a result. -/
def showed (w : Workspace) (d : Display) : Outcome := w.wrote (d.text w.settings.outputFormat)

/-- The text of a file. -/
def text (w : Workspace) (path : String) : Except Failure String :=
  match w.read? path with
  | some text => .ok text
  | none => .error (.missingFile path)

/-- The specification of a file. -/
def spec (w : Workspace) (path : String) : Except Failure Spec :=
  match w.text path with
  | .error e => .error e
  | .ok text =>
    match Spec.ofYaml? text with
    | some s => .ok s
    | none => .error .malformedSpec

/-- The event of a file. -/
def event (w : Workspace) (path : String) : Except Failure Event :=
  match w.text path with
  | .error e => .error e
  | .ok text =>
    match (Json.ofText? text).bind fun v => Event.decode? (.json false v) with
    | some e => .ok e
    | none => .error .malformedFile

/-- Goes on with a value, unless it cannot be had. -/
def proceed {α : Type} (w : Workspace) (r : Except Failure α) (next : α → Outcome) : Outcome :=
  match r with
  | .ok a => next a
  | .error e => w.failed "" e

/-- Goes on with the specification of a file, unless something is wrong with it. -/
def onValidSpec (w : Workspace) (path : String) (next : Spec → Outcome) : Outcome :=
  w.proceed (w.spec path) fun s =>
    let report := s.validate
    if report.isValid then next s
    else
      w.failed (linesText report.problemLines) (.other (path ++ " is not a valid build spec"))

end Workspace

namespace Command

/-- Writes a specification to start from, unless there is a file already. -/
def runInit (w : Workspace) : Outcome :=
  let path := w.settings.specPath
  if (w.read? path).isSome then w.wrote (linesText ["! " ++ path ++ " already exists"])
  else (w.write path Spec.starterText).wrote (linesText ["✓ Created " ++ path])

/-- Checks the specification of a file. -/
def runValidate (w : Workspace) (path : String) : Outcome :=
  w.proceed (w.spec path) fun s =>
    let report := s.validate
    let output := (report.display path s).text w.settings.outputFormat
    if report.isValid then w.wrote output
    else w.failed output (.other (Text.ofNat report.problems ++ " problem(s) found"))

/-- Shows the jobs that an event starts. -/
def runDispatch (w : Workspace) (path event : String) : Outcome :=
  w.onValidSpec path fun s =>
    w.proceed (w.event event) fun e => w.showed (s.dispatchDisplay e)

/-- Shows the query for the builds of a job at a commit. -/
def runQuery (w : Workspace) (commit job : String) : Outcome :=
  match CommitId.ofText? commit with
  | none => w.failed "" (.invalidCommit (Text.trim commit))
  | some c =>
    match Query.forBuild? c job with
    | none => w.failed "" (.invalidArgument Query.blankJobReason)
    | some text => w.wrote (linesText [text])

/-- Shows the jobs in an order in which they can be run. -/
def runPlan (w : Workspace) (path : String) : Outcome :=
  w.onValidSpec path fun s =>
    let ordered : Except GraphError Display := do
      let g ← JobGraph.ofSpec s
      let order ← g.order
      return g.display order
    w.proceed (ordered.mapError fun e => .other e.message) w.showed

/-- Shows the retries of a job. -/
def runRetries (w : Workspace) (path job : String) : Outcome :=
  w.onValidSpec path fun s =>
    match s.retryDisplay? job with
    | some d => w.showed d
    | none => w.failed "" (.other (Spec.notFoundMessage job))

/-- The name and the version of the program. -/
def versionText : String := "jobspec 0.1.0"

/-- Changes a setting. -/
def runChangeSetting (w : Workspace) (key value : String) : Outcome :=
  match Settings.change w.settingsFile key value with
  | .ok text =>
    { w with settingsFile := some text }.wrote
      (linesText ["✓ Set " ++ key ++ " = " ++ value])
  | .error .unreadable => w.failed "" .malformedFile
  | .error (.refused e) => w.failed "" (.other e.message)

/-- What a command writes and leaves, if it is run at the given time. -/
def run (w : Workspace) (now : Instant) : Command → Outcome
  | .init => runInit w
  | .validate path => runValidate w (specPath w.settings path)
  | .dispatch path event => runDispatch w (specPath w.settings path) event
  | .query commit job => runQuery w commit job
  | .plan path => runPlan w (specPath w.settings path)
  | .retries path job => runRetries w (specPath w.settings path) job
  | .schedule path =>
    w.onValidSpec (specPath w.settings path) fun s => w.showed (s.upcomingDisplay now)
  | .schema => w.wrote (linesText [Spec.schema.pretty])
  | .showSettings => w.wrote (linesText [w.settings.text])
  | .changeSetting key value => runChangeSetting w key value
  | .version => w.wrote (linesText [versionText])

/-- What the command that arguments tell writes and leaves. -/
def runArguments (w : Workspace) (now : Instant) (arguments : List String) : Outcome :=
  match ofArguments? arguments with
  | some c => c.run w now
  | none => w.failed "" .refused

end Command

end Pipeline
