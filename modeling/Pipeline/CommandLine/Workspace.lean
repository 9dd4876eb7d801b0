import Pipeline.Settings

/-!
# Workspaces

The files that commands read and write: those of the directory in which they are run, and the
one that keeps the settings.
-/

namespace Pipeline

/-- The texts of files by their paths, and that of the file that keeps the settings. -/
structure Workspace where
  files : List (String × String)
  settingsFile : Option String
  deriving DecidableEq, Repr, Inhabited

namespace Workspace

/-- The characters of a path without `./` at its start. -/
def placeOf : List Char → List Char
  | '.' :: '/' :: cs => placeOf cs
  | cs => cs

/-- The path under which a file is kept. -/
def place (path : String) : String := String.ofList (placeOf path.toList)

/-- The text of a file, if there is one. -/
def read? (w : Workspace) (path : String) : Option String := w.files.lookup (place path)

/-- The workspace with the text of a file set. -/
def write (w : Workspace) (path text : String) : Workspace :=
  { w with files := w.files.filter (fun f => f.1 != place path) ++ [(place path, text)] }

/-- The settings that hold. A file that cannot be read counts as none. -/
def settings (w : Workspace) : Settings := (Settings.ofFile? w.settingsFile).getD .standard

end Workspace

end Pipeline
