import Pipeline.Source
import Pipeline.Yaml.Writer
import Pipeline.Json.Writer

/-!
# Settings

What a user has settled for all commands: which specification is meant if none is named, how
results are written, and what is logged.

* `OutputFormat.render`: a value in one of the formats.
* `Settings.set`: changes a setting by its name.
* `Settings.ofFile?`, `Settings.text`: the file that keeps the settings.
* `Settings.change`: changes a setting in the file.
-/

namespace Pipeline

/-- How results are written. -/
inductive OutputFormat where
  /-- For the eye; each kind of result has its own form. -/
  | table
  | json
  | yaml
  deriving DecidableEq, Repr, Inhabited

namespace OutputFormat

/-- The formats by name. -/
def options : List (String × OutputFormat) := [("table", .table), ("json", .json), ("yaml", .yaml)]

/-- The name of a format. -/
def name : OutputFormat → String
  | .table => "table"
  | .json => "json"
  | .yaml => "yaml"

/-- Reads the written form. -/
def decode? (s : Source) : Option OutputFormat := s.oneOf? options

/-- The text of a value, if the format has one for all values. -/
def render (format : OutputFormat) (v : Json) : Option String :=
  match format with
  | .table => none
  | .json => some v.pretty
  | .yaml => some (Yaml.write v)

end OutputFormat

/-- What holds for all commands. -/
structure Settings where
  specPath : String
  outputFormat : OutputFormat
  logFilter : String
  logJson : Bool
  deriving DecidableEq, Repr, Inhabited

/-- Why a setting cannot be changed. -/
inductive SettingsError where
  | unknownKey (key : String)
  | invalidBoolean (value : String)
  | invalidOutputFormat (value : String)
  deriving DecidableEq, Repr, Inhabited

/-- The wording of an error. -/
def SettingsError.message : SettingsError → String
  | .unknownKey key => "Unknown config key: " ++ key
  | .invalidBoolean value => "Invalid boolean: " ++ value
  | .invalidOutputFormat value => "Invalid output format: " ++ value

namespace Settings

/-- The settings of a user who has changed none. -/
def standard : Settings := ⟨".jobspec.yml", .table, "warn", false⟩

/-- The written form. -/
def encode (s : Settings) : Json :=
  .obj [("spec_path", .str s.specPath), ("output_format", .str s.outputFormat.name),
    ("log_filter", .str s.logFilter), ("log_json", .bool s.logJson)]

/-- Reads the written form. -/
def decode? (s : Source) : Option Settings := do
  let r ← s.record? ["spec_path", "output_format", "log_filter", "log_json"]
  let specPath ← r.withDefault "spec_path" standard.specPath Source.text?
  let outputFormat ← r.withDefault "output_format" standard.outputFormat OutputFormat.decode?
  let logFilter ← r.withDefault "log_filter" standard.logFilter Source.text?
  let logJson ← r.withDefault "log_json" standard.logJson Source.flag?
  some { specPath, outputFormat, logFilter, logJson }

/-- The text of a boolean. -/
def boolean? : String → Option Bool
  | "true" => some true
  | "false" => some false
  | _ => none

/-- Changes the setting of the given name. -/
def set (s : Settings) (key value : String) : Except SettingsError Settings :=
  if key = "spec_path" then .ok { s with specPath := value }
  else if key = "log_filter" then .ok { s with logFilter := value }
  else if key = "log_json" then
    match boolean? value with
    | some b => .ok { s with logJson := b }
    | none => .error (.invalidBoolean value)
  else if key = "output_format" then
    match OutputFormat.options.lookup value with
    | some format => .ok { s with outputFormat := format }
    | none => .error (.invalidOutputFormat value)
  else .error (.unknownKey key)

/-! ## The file -/

/-- Reads settings from a text. -/
def ofText? (text : String) : Option Settings :=
  (Yaml.Node.ofText? text).bind fun n => decode? (.yaml false n)

/-- Reads the settings from their file. Where there is no file, none has been changed. -/
def ofFile? : Option String → Option Settings
  | none => some standard
  | some text => ofText? text

/-- The text of the file that keeps the settings. -/
def text (s : Settings) : String := Yaml.write s.encode

/-- Why a setting cannot be changed in the file. -/
inductive FileError where
  | unreadable
  | refused (e : SettingsError)
  deriving DecidableEq, Repr, Inhabited

/-- The text of the file with a setting changed. -/
def change (file : Option String) (key value : String) : Except FileError String :=
  match ofFile? file with
  | none => .error .unreadable
  | some s =>
    match s.set key value with
    | .ok s => .ok s.text
    | .error e => .error (.refused e)

end Settings

end Pipeline
