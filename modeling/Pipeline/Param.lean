import Pipeline.Check
import Pipeline.Source

/-!
# Parameters

A job may take parameters. Whoever runs it supplies values for them.

* `ParamKind`, `ParamSpec`: what a job says about a parameter.
* `ParamSupply`: values for a parameter of another job.
* `ParamSpec.lookup`: the parameters by name; of several with one name the last one counts.
-/

namespace Pipeline

/-- What values a parameter takes. -/
inductive ParamKind where
  | text
  | boolean
  | integer
  | choice (choices : List String)
  | secret
  deriving DecidableEq, Repr, Inhabited

namespace ParamKind

/-- The kinds without fields, and what the others are read from. -/
def readers : List (String × (Source → Option ParamKind)) :=
  [("text", fun s => s.noFields?.map fun _ => .text),
   ("boolean", fun s => s.noFields?.map fun _ => .boolean),
   ("integer", fun s => s.noFields?.map fun _ => .integer),
   ("choice", fun s => do
      let r ← s.record? ["choices"]
      let choices ← r.required "choices" Source.texts?
      some (.choice choices)),
   ("secret", fun s => s.noFields?.map fun _ => .secret)]

/-- Reads the written form. -/
def decode? (s : Source) : Option ParamKind := do
  let (label, body) ← s.tagged?
  let read ← label.pick? readers
  read body

/-- The written form. -/
def encode : ParamKind → Json
  | .text => .obj [("type", .str "text")]
  | .boolean => .obj [("type", .str "boolean")]
  | .integer => .obj [("type", .str "integer")]
  | .choice choices => .obj [("type", .str "choice"), ("choices", .texts choices)]
  | .secret => .obj [("type", .str "secret")]

end ParamKind

/-- A named parameter that a job takes. -/
structure ParamSpec where
  name : String
  description : Option String
  allowEmpty : Bool
  kind : ParamKind
  defaultValue : Option String
  deriving DecidableEq, Repr, Inhabited

namespace ParamSpec

/-- A text parameter without a default value. -/
def ofName (name : String) : ParamSpec := ⟨name, none, false, .text, none⟩

/-- The written form. -/
def encode (p : ParamSpec) : Json :=
  .obj [("name", .str p.name), ("description", .optionalText p.description),
    ("allow_empty", .bool p.allowEmpty), ("kind", p.kind.encode),
    ("default_value", .optionalText p.defaultValue)]

/-- Reads the written form. -/
def decode? (s : Source) : Option ParamSpec := do
  let r ← s.record? ["name", "description", "allow_empty", "kind", "default_value"]
  let name ← r.required "name" Source.text?
  let description ← r.withDefault "description" none (Source.optional? Source.text?)
  let allowEmpty ← r.withDefault "allow_empty" false Source.flag?
  let kind ← r.withDefault "kind" .text ParamKind.decode?
  let defaultValue ← r.withDefault "default_value" none (Source.optional? Source.text?)
  some { name, description, allowEmpty, kind, defaultValue }

/-- Whether a text is an integer of 64 bits. -/
def isInteger (s : String) : Bool := (Text.signed? (Nat.pow 2 63) s.toList).isSome

/-- The choices of a parameter: there is at least one, and none is repeated. -/
def checkChoices (choices : List String) : Check :=
  .all [.require (!choices.isEmpty) "At least one choice must be defined",
    .noRepeats "Duplicate choice" id choices]

/-- The checks of a kind. -/
def checkKind : ParamKind → Check
  | .choice choices => .field "kind" (.field "choices" (checkChoices choices))
  | _ => .pass

/-- A default value is one that the parameter takes; secrets have none. -/
def checkDefault (kind : ParamKind) (value : String) : Check :=
  match kind with
  | .text => .pass
  | .boolean =>
    .require (value == "true" || value == "false") "Default value must be 'true' or 'false'"
  | .integer => .require (isInteger value) ("Not an integer: " ++ value)
  | .choice choices => .require (choices.contains value) ("Not one of the choices: " ++ value)
  | .secret => .fail "Secret parameters may not have a default value"

/-- Everything that must hold of a parameter. -/
def check (p : ParamSpec) : Check :=
  .all [.field "name" (.notEmpty p.name), checkKind p.kind,
    .field "default_value" (.optional (checkDefault p.kind) p.defaultValue)]

/-- Parameters by name. -/
abbrev Table := List (String × ParamSpec)

/-- The table with an entry set. -/
def Table.set (t : Table) (p : ParamSpec) : Table :=
  t.filter (fun e => e.1 != p.name) ++ [(p.name, p)]

/-- The parameters by name. Of several parameters with one name the last one counts. -/
def lookup (specs : List ParamSpec) : Table := specs.foldl Table.set []

end ParamSpec

/-- Values for a parameter of another job. -/
structure ParamSupply where
  name : String
  values : List String
  secret : Bool
  deriving DecidableEq, Repr, Inhabited

namespace ParamSupply

/-- The written form. -/
def encode (p : ParamSupply) : Json :=
  .obj [("name", .str p.name), ("values", .texts p.values), ("secret", .bool p.secret)]

/-- Reads the written form. -/
def decode? (s : Source) : Option ParamSupply := do
  let r ← s.record? ["name", "values", "secret"]
  let name ← r.required "name" Source.text?
  let values ← r.withDefault "values" [] Source.texts?
  let secret ← r.withDefault "secret" false Source.flag?
  some { name, values, secret }

/-- The name is not blank, and a secret has one value at the most. -/
def check (p : ParamSupply) : Check :=
  .all [.field "name" (.notEmpty p.name),
    .field "values" (.require (!(p.secret && 1 < p.values.length))
      "Secret parameters accept a single value")]

/-- The supplies of a list, no two of which have one name. -/
def checkAll (supplies : List ParamSupply) : Check :=
  .all [.each check supplies,
    .noRepeats "Duplicate param" (.field "name") (supplies.map ParamSupply.name)]

end ParamSupply

end Pipeline
