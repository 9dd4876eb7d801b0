import Pipeline.Json

/-!
# Schemas

A schema tells which JSON values have the form of something. It is a list of keywords, in the
order in which they are written.

* `Schema.text`, `Schema.natural`, `Schema.list`, …: the schemas of simple values.
* `Schema.record`: values with named fields. A field is required unless its schema tells a
  default.
* `Schema.variant`: records of one of several kinds, which the field `type` names.
* `Schema.document`: a schema with the definitions that it refers to.
-/

namespace Pipeline

/-- The keywords of a schema, each with its value. -/
abbrev Schema := List (String × Json)

namespace Schema

/-- Values of a type of JSON. -/
def ofType (name : String) : Schema := [("type", .str name)]

/-- Values of a type of JSON, or none. -/
def ofOptionalType (name : String) : Schema := [("type", .texts [name, "null"])]

/-- Texts. -/
def text : Schema := ofType "string"

/-- Texts that may be missing. -/
def optionalText : Schema := ofOptionalType "string"

/-- Booleans. -/
def flag : Schema := ofType "boolean"

/-- Bounds of the natural numbers of a format. -/
def bounds (format : String) : Schema := [("format", .str format), ("minimum", .real "0.0")]

/-- Natural numbers of a format. -/
def natural (format : String) : Schema := ofType "integer" ++ bounds format

/-- Natural numbers of a format that may be missing. -/
def optionalNatural (format : String) : Schema := ofOptionalType "integer" ++ bounds format

/-- Lists of values of one schema. -/
def list (s : Schema) : Schema := ofType "array" ++ [("items", .obj s)]

/-- One of several texts. -/
def options (names : List String) : Schema := text ++ [("enum", .texts names)]

/-- What is defined under a name. -/
def reference (name : String) : Schema := [("$ref", .str ("#/definitions/" ++ name))]

/-- What is defined under a name, with room for further keywords. -/
def extensible (name : String) : Schema := [("allOf", .arr [.obj (reference name)])]

/-- A schema whose value may be left out, and then is the given one. -/
def withDefault (v : Json) (s : Schema) : Schema := ("default", v) :: s

/-- A list that may be left out. -/
def optionalList (s : Schema) : Schema := withDefault (.arr []) (list s)

/-- A schema with a description. -/
def describe (words : String) (s : Schema) : Schema := ("description", .str words) :: s

/-- A named field. -/
abbrev Field := String × Schema

/-- Whether a field has to be there: its schema tells no default. -/
def isRequired (f : Field) : Bool := !(f.2.map Prod.fst).contains "default"

/-- Fields in the order of their names. -/
def ordered (fields : List Field) : List Field :=
  fields.mergeSort fun a b => decide (a.1 ≤ b.1)

/-- Values with the given fields, in the order of their names, beside further keywords. -/
def recordWith (keywords : Schema) (fields : List Field) : Schema :=
  let fields := ordered fields
  let required := (fields.filter isRequired).map Prod.fst
  ofType "object" ++ (if required.isEmpty then [] else [("required", .texts required)]) ++
    keywords ++ [("properties", .obj (fields.map fun (name, s) => (name, .obj s)))]

/-- Values with the given fields. -/
def record (fields : List Field) : Schema := recordWith [] fields

/-- Values of one kind, which the field `type` names. -/
def variant (kind : String) (fields : List Field) : Schema :=
  record (("type", options [kind]) :: fields)

/-- Values that have one of several forms. -/
def oneOf (forms : List Schema) : Schema := [("oneOf", .arr (forms.map .obj))]

/-- The definitions that other schemas refer to. -/
def definitions (entries : List Field) : Schema :=
  [("definitions", .obj ((ordered entries).map fun (name, s) => (name, .obj s)))]

/-- The rules that schemas follow. -/
def dialect : String := "http:" ++ "//json-schema.org/draft-07/schema#"

/-- A schema under a title, with the definitions that it refers to. -/
def document (title : String) (s : Schema) (entries : List Field) : Json :=
  .obj ([("$schema", .str dialect), ("title", .str title)] ++ s ++ definitions entries)

end Schema

end Pipeline
