import Pipeline.CommandLine.Run
import Std.Time.DateTime.Timestamp

/-!
# The program

Reads the files that a command looks at, runs it, and writes what it has changed.
-/

namespace Pipeline

namespace Program

/-- The text of a file, if it can be read. -/
def readFile? (path : String) : IO (Option String) := do
  try
    return some (← IO.FS.readFile path)
  catch _ => return none

/-- The directory of the file that keeps the settings. -/
def settingsDirectory : IO String := do
  match ← IO.getEnv "XDG_CONFIG_HOME" with
  | some directory => return directory ++ "/jobspec"
  | none => return (← IO.getEnv "HOME").getD "" ++ "/.config/jobspec"

/-- The name of the file that keeps the settings. -/
def settingsName : String := "config.yaml"

/-- The files that a command looks at. -/
def load (settingsFile : Option String) (arguments : List String) : IO Workspace := do
  let empty : Workspace := ⟨[], settingsFile⟩
  let paths := ((Command.ofArguments? arguments).map (Command.paths empty.settings)).getD []
  paths.foldlM (fun w path => do
    match ← readFile? path with
    | some text => return w.write path text
    | none => return w) empty

/-- Writes the files that a command has changed. -/
def save (directory : String) (before after : Workspace) : IO Unit := do
  for (path, text) in after.files do
    if before.read? path != some text then IO.FS.writeFile path text
  if before.settingsFile != after.settingsFile then
    if let some text := after.settingsFile then
      IO.FS.createDirAll directory
      IO.FS.writeFile (directory ++ "/" ++ settingsName) text

/-- The present time. -/
def now : IO Instant := do
  let t ← Std.Time.Timestamp.now
  return ⟨t.toSecondsSinceUnixEpoch.toInt, 0⟩

end Program

end Pipeline

open Pipeline in
/-- Runs the command that the arguments tell. -/
def main (arguments : List String) : IO UInt32 := do
  let directory ← Program.settingsDirectory
  let settingsFile ← Program.readFile? (directory ++ "/" ++ Program.settingsName)
  let before ← Program.load settingsFile arguments
  let outcome := Command.runArguments before (← Program.now) arguments
  Program.save directory before outcome.workspace
  IO.print outcome.output
  if let some e := outcome.failure then
    IO.eprintln ("Error: " ++ (e.text?.getD "unknown command or arguments"))
  return outcome.exitCode.toUInt32
