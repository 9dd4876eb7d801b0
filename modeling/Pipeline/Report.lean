import Pipeline.Check
import Pipeline.Source

/-!
# Reports

What a job publishes from its output: the results of tests and analyses in one of several
formats, or pages of text.
-/

namespace Pipeline

/-- The formats of reports that are nothing but files. -/
inductive ReportFormat where
  | junit
  | checkstyle
  | jest
  | clover
  deriving DecidableEq, Repr, Inhabited

/-- The name of a format. -/
def ReportFormat.name : ReportFormat → String
  | .junit => "junit"
  | .checkstyle => "checkstyle"
  | .jest => "jest"
  | .clover => "clover"

/-- A report: files in some format, or pages of text with a first one. -/
inductive Report where
  | files (format : ReportFormat) (reportName filePatterns : String)
  | markdown (reportName filePatterns startPage : String)
  deriving DecidableEq, Repr, Inhabited

namespace Report

/-- The name under which the report is published. -/
def reportName : Report → String
  | .files _ name _ => name
  | .markdown name _ _ => name

/-- The files that belong to the report. -/
def filePatterns : Report → String
  | .files _ _ patterns => patterns
  | .markdown _ patterns _ => patterns

/-- Reads a report of which nothing but the files is told. -/
def decodeFiles? (format : ReportFormat) (s : Source) : Option Report := do
  let r ← s.record? ["report_name", "file_patterns"]
  let reportName ← r.required "report_name" Source.text?
  let filePatterns ← r.required "file_patterns" Source.text?
  some (.files format reportName filePatterns)

/-- Reads pages of text. -/
def decodeMarkdown? (s : Source) : Option Report := do
  let r ← s.record? ["report_name", "file_patterns", "start_page"]
  let reportName ← r.required "report_name" Source.text?
  let filePatterns ← r.required "file_patterns" Source.text?
  let startPage ← r.required "start_page" Source.text?
  some (.markdown reportName filePatterns startPage)

/-- What the reports of each kind are read from. -/
def readers : List (String × (Source → Option Report)) :=
  [("junit", decodeFiles? .junit), ("checkstyle", decodeFiles? .checkstyle),
   ("jest", decodeFiles? .jest), ("clover", decodeFiles? .clover),
   ("markdown", decodeMarkdown?)]

/-- Reads the written form. -/
def decode? (s : Source) : Option Report := do
  let (label, body) ← s.tagged?
  let read ← label.pick? readers
  read body

/-- The written form. -/
def encode : Report → Json
  | .files format name patterns =>
    .obj [("type", .str format.name), ("report_name", .str name),
      ("file_patterns", .str patterns)]
  | .markdown name patterns startPage =>
    .obj [("type", .str "markdown"), ("report_name", .str name),
      ("file_patterns", .str patterns), ("start_page", .str startPage)]

/-- The first page, if the report has one. -/
def startPage? : Report → Option String
  | .files _ _ _ => none
  | .markdown _ _ startPage => some startPage

/-- No text of a report is blank. -/
def check (r : Report) : Check :=
  .all [.field "report_name" (.notEmpty r.reportName),
    .field "file_patterns" (.notEmpty r.filePatterns),
    .optional (fun startPage => .field "start_page" (.notEmpty startPage)) r.startPage?]

end Report

end Pipeline
