import Pipeline.Check
import Pipeline.Source

/-!
# Services

Containers that run beside a job.

* `EnvVar`: a variable of the environment of a service.
* `Service`: a container, with the command that tells when it is ready.
-/

namespace Pipeline

/-- A variable of the environment of a service. -/
structure EnvVar where
  name : String
  value : String
  deriving DecidableEq, Repr, Inhabited

namespace EnvVar

/-- The written form. -/
def encode (v : EnvVar) : Json := .obj [("name", .str v.name), ("value", .str v.value)]

/-- Reads the written form. -/
def decode? (s : Source) : Option EnvVar := do
  let r ← s.record? ["name", "value"]
  let name ← r.required "name" Source.text?
  let value ← r.withDefault "value" "" Source.text?
  some { name, value }

/-- A variable has a name. -/
def check (v : EnvVar) : Check := .field "name" (.notEmpty v.name)

end EnvVar

/-- A container that runs beside a job. -/
structure Service where
  name : String
  image : String
  arguments : Option String
  envVars : List EnvVar
  readinessCheckCommand : String
  cpuRequirement : String
  memoryRequirement : String
  deriving DecidableEq, Repr, Inhabited

namespace Service

/-- The processor time that a service needs if it says nothing. -/
def standardCpu : String := "250m"

/-- The memory that a service needs if it says nothing. -/
def standardMemory : String := "256Mi"

/-- The written form. -/
def encode (s : Service) : Json :=
  .obj [("name", .str s.name), ("image", .str s.image),
    ("arguments", .optionalText s.arguments), ("env_vars", .arr (s.envVars.map EnvVar.encode)),
    ("readiness_check_command", .str s.readinessCheckCommand),
    ("cpu_requirement", .str s.cpuRequirement),
    ("memory_requirement", .str s.memoryRequirement)]

/-- Reads the written form. -/
def decode? (s : Source) : Option Service := do
  let r ← s.record?
    ["name", "image", "arguments", "env_vars", "readiness_check_command", "cpu_requirement",
      "memory_requirement"]
  let name ← r.required "name" Source.text?
  let image ← r.required "image" Source.text?
  let arguments ← r.withDefault "arguments" none (Source.optional? Source.text?)
  let envVars ← r.withDefault "env_vars" [] (Source.list? EnvVar.decode?)
  let readinessCheckCommand ← r.required "readiness_check_command" Source.text?
  let cpuRequirement ← r.withDefault "cpu_requirement" standardCpu Source.text?
  let memoryRequirement ← r.withDefault "memory_requirement" standardMemory Source.text?
  some { name, image, arguments, envVars, readinessCheckCommand, cpuRequirement,
         memoryRequirement }

/-- No text that a service needs is blank, and no variable is set twice. -/
def check (s : Service) : Check :=
  .all [.field "name" (.notEmpty s.name), .field "image" (.notEmpty s.image),
    .field "readiness_check_command" (.notEmpty s.readinessCheckCommand),
    .field "cpu_requirement" (.notEmpty s.cpuRequirement),
    .field "memory_requirement" (.notEmpty s.memoryRequirement),
    .field "env_vars" (.each EnvVar.check s.envVars),
    .field "env_vars" (.noRepeats "Duplicate environment variable" (.field "name")
      (s.envVars.map EnvVar.name))]

end Service

end Pipeline
