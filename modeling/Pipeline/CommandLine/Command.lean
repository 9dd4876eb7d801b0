import Pipeline.CommandLine.Arguments
import Pipeline.Settings

/-!
# Commands

* `Command`: what the program can be told to do.
* `Command.ofArguments?`: reads a command.
* `Command.paths`: the files that a command looks at.
-/

namespace Pipeline

/-- What the program can be told to do. Most commands are about a specification, the path of
which may be told. -/
inductive Command where
  /-- Write a specification to start from. -/
  | init
  /-- Check a specification. -/
  | validate (path : Option String)
  /-- Show the jobs that an event starts. -/
  | dispatch (path : Option String) (event : String)
  /-- Show the query for the builds of a job at a commit. -/
  | query (commit job : String)
  /-- Show the jobs in an order in which they can be run. -/
  | plan (path : Option String)
  /-- Show the retries of a job. -/
  | retries (path : Option String) (job : String)
  /-- Show the next scheduled times. -/
  | schedule (path : Option String)
  /-- Show the schema of specifications. -/
  | schema
  /-- Show the settings. -/
  | showSettings
  /-- Change a setting. -/
  | changeSetting (key value : String)
  /-- Show the version of the program. -/
  | version
  deriving DecidableEq, Repr, Inhabited

namespace Command

/-- Reads a command that takes nothing but the path of a specification, which may be missing. -/
def withPath? (command : Option String → Command) (arguments : List String) : Option Command :=
  (ArgumentForm.read? ⟨[], 1⟩ arguments).map fun a => command (a.value? 0)

/-- Reads a command that takes nothing. -/
def alone? (command : Command) (arguments : List String) : Option Command :=
  (ArgumentForm.read? ⟨[], 0⟩ arguments).map fun _ => command

/-- Reads the event, and the path of a specification. -/
def dispatch? (arguments : List String) : Option Command := do
  let a ← ArgumentForm.read? ⟨[('e', "event")], 1⟩ arguments
  let event ← a.option? "event"
  some (.dispatch (a.value? 0) event)

/-- Reads the commit and the job of a query. -/
def query? (arguments : List String) : Option Command := do
  let a ← ArgumentForm.read? ⟨[('c', "commit"), ('j', "job")], 0⟩ arguments
  let commit ← a.option? "commit"
  let job ← a.option? "job"
  some (.query commit job)

/-- Reads the job, and the path of a specification. -/
def retries? (arguments : List String) : Option Command := do
  let a ← ArgumentForm.read? ⟨[('j', "job")], 1⟩ arguments
  let job ← a.option? "job"
  some (.retries (a.value? 0) job)

/-- Reads the key and the value of a setting. -/
def changeSetting? (arguments : List String) : Option Command := do
  let a ← ArgumentForm.read? ⟨[], 2⟩ arguments
  let key ← a.value? 0
  let value ← a.value? 1
  some (.changeSetting key value)

/-- A command by the first of the arguments, from the other ones. -/
def choose? (readers : List (String × (List String → Option Command))) :
    List String → Option Command
  | [] => none
  | name :: arguments => (readers.lookup name).bind fun read => read arguments

/-- The commands about settings by name. -/
def settingReaders : List (String × (List String → Option Command)) :=
  [("show", alone? .showSettings), ("set", changeSetting?)]

/-- The commands by name. -/
def readers : List (String × (List String → Option Command)) :=
  [("init", alone? .init), ("validate", withPath? .validate), ("match", dispatch?),
   ("query", query?), ("plan", withPath? .plan), ("retries", retries?),
   ("schedule", withPath? .schedule), ("schema", alone? .schema),
   ("config", choose? settingReaders), ("--version", fun _ => some .version),
   ("-V", fun _ => some .version)]

/-- Reads a command. -/
def ofArguments? (arguments : List String) : Option Command := choose? readers arguments

/-- The path of the specification that is meant. -/
def specPath (settings : Settings) (path : Option String) : String :=
  path.getD settings.specPath

/-- The files that a command looks at. -/
def paths (settings : Settings) : Command → List String
  | .init => [settings.specPath]
  | .validate path | .plan path | .retries path _ | .schedule path => [specPath settings path]
  | .dispatch path event => [specPath settings path, event]
  | .query _ _ | .schema | .showSettings | .changeSetting _ _ | .version => []

end Command

end Pipeline
