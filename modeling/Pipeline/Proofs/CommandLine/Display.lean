import Pipeline.CommandLine.Display
import Pipeline.Proofs.Json.Texts
import Pipeline.Proofs.Yaml.Texts

/-!
# What is shown of an order

* `JobGraph.getElem?_lines_display`, `JobGraph.value_display`: the lines and the value that jobs in
  order are shown by.
* `JobGraph.Lists`: what a text has to hold that lists jobs in order, in each format.
* `JobGraph.lists_display`: the text that is shown lists the jobs.
-/

namespace Pipeline

theorem linesText_singleton (line : String) : linesText [line] = line ++ "\n" := by
  simp [linesText, String.join]

namespace Display

variable {d : Display}

theorem text_table : d.text .table = String.join (d.lines.map fun line => line ++ "\n") := rfl

theorem text_json : d.text .json = d.value.pretty ++ "\n" := linesText_singleton _

theorem text_yaml : d.text .yaml = Yaml.write d.value ++ "\n" := linesText_singleton _

end Display

namespace JobGraph

variable (g : JobGraph) (order : List String)

/-- What stands behind the name of a job: the names of the jobs that it waits for. -/
def waitText (needs : List String) : String :=
  if needs = [] then "" else " (after " ++ Text.joinWith ", " needs ++ ")"

/-- The line of a job tells its place and its name, and the jobs that it waits for. -/
theorem orderLine_eq (place : Nat) (job : String) :
    g.orderLine place job =
      Text.padStart 3 (Text.ofNat place) ++ ". " ++ job ++ waitText (g.predecessors job) := by
  simp [orderLine, waitText]

@[simp] theorem value_display : (g.display order).value = .texts order := rfl

@[simp] theorem length_lines_display : (g.display order).lines.length = order.length := by
  simp [display]

/-- The lines are those of the jobs, each at its place. -/
theorem getElem?_lines_display (i : Nat) :
    (g.display order).lines[i]? = (order[i]?).map fun job => g.orderLine (i + 1) job := by
  simp [display, List.getElem?_zipIdx, Function.comp_def]

/-- The text lists the jobs in order in a format. -/
inductive Lists : OutputFormat → String → Prop
  /-- The line at a place names the job at this place of the order. -/
  | table {lines : List String} (hlength : lines.length = order.length)
    (hline : ∀ i job, order[i]? = some job → lines[i]? = some
      (Text.padStart 3 (Text.ofNat (i + 1)) ++ ". " ++ job ++ waitText (g.predecessors job))) :
    Lists .table (String.join (lines.map fun line => line ++ "\n"))
  /-- What is read from the text is the list of the names. -/
  | json {text : String} (hread : Json.ofText? text = some (.texts order)) : Lists .json text
  /-- What is read from the document is the list of the names, whether or not spellings tell kinds.
  The line feed behind the document is not part of it: a name at the end that keeps its line breaks
  would take it in. -/
  | yaml {document : String} {node : Yaml.Node} (hread : Yaml.Node.ofText? document = some node)
    (htexts : ∀ settled, Source.texts? (.yaml settled node) = some order) :
    Lists .yaml (document ++ "\n")

theorem lists_table : g.Lists order .table ((g.display order).text .table) := by
  rw [Display.text_table]
  refine .table (length_lines_display g order) fun i job hi => ?_
  rw [getElem?_lines_display, hi, Option.map_some, orderLine_eq]

theorem lists_json : g.Lists order .json ((g.display order).text .json) := by
  rw [Display.text_json, value_display]
  exact .json (Json.ofText?_pretty_texts order (List.all_eq_true.mp (by decide)))

theorem lists_yaml : g.Lists order .yaml ((g.display order).text .yaml) := by
  rw [Display.text_yaml, value_display]
  exact .yaml (Yaml.Node.ofText?_write_texts order) fun settled =>
    Yaml.texts?_sequence settled order

/-- What is shown of jobs in order lists them, whatever the format. -/
theorem lists_display (format : OutputFormat) :
    g.Lists order format ((g.display order).text format) := by
  cases format with
  | table => exact lists_table g order
  | json => exact lists_json g order
  | yaml => exact lists_yaml g order

end JobGraph

end Pipeline
