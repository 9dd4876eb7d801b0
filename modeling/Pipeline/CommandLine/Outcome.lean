import Pipeline.CommandLine.Workspace
import Pipeline.Text.Shown

/-!
# Outcomes of commands

* `Failure`: why a command fails.
* `Outcome`: what a command writes, whether it fails, and the files as it leaves them.
* `Display`: a result in the forms in which it can be shown.
-/

namespace Pipeline

/-- Why a command fails. -/
inductive Failure where
  /-- There is no such command, or it cannot be given such arguments. -/
  | refused
  /-- The text of a specification does not have its form. -/
  | malformedSpec
  /-- The text of an event or of the settings does not have its form. -/
  | malformedFile
  /-- A text is no commit id. -/
  | invalidCommit (text : String)
  /-- An argument is not one that the command can use. -/
  | invalidArgument (reason : String)
  /-- What else there is to say. -/
  | other (message : String)
  deriving DecidableEq, Repr, Inhabited

namespace Failure

/-- What is said of a file that is missing. -/
def missingFile (path : String) : Failure :=
  .other ("Failed to read " ++ path ++ ": No such file or directory (os error 2)")

/-- What is said of a failure, but for arguments that are refused. -/
def text? : Failure → Option String
  | .refused => none
  | .malformedSpec => some "Serialization"
  | .malformedFile => some "Parse"
  | .invalidCommit text => some ("InvalidCommitId(" ++ Text.shown text ++ ")")
  | .invalidArgument reason => some ("InvalidArgument(" ++ Text.shown reason ++ ")")
  | .other message => some (Text.shown message)

/-- The number that tells a failure to the caller. -/
def exitCode : Failure → Nat
  | .refused => 2
  | _ => 1

end Failure

/-- What a command writes, why it fails if it does, and the files as it leaves them. -/
structure Outcome where
  output : String
  failure : Option Failure
  workspace : Workspace
  deriving DecidableEq, Repr, Inhabited

namespace Outcome

/-- The number that tells the caller how a command ended. -/
def exitCode (o : Outcome) : Nat :=
  match o.failure with
  | none => 0
  | some e => e.exitCode

end Outcome

/-- Lines, each of which is ended. -/
def linesText (lines : List String) : String := String.join (lines.map fun l => l ++ "\n")

/-- A result: the value for formats that write all values, and the lines for the eye. -/
structure Display where
  value : Json
  lines : List String
  deriving Repr, Inhabited

/-- The text of a result in a format. -/
def Display.text (d : Display) (format : OutputFormat) : String :=
  match format.render d.value with
  | some text => linesText [text]
  | none => linesText d.lines

end Pipeline
