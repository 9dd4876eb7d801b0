import Mathlib.Tactic.MkIffOfInductiveProp
import Pipeline.Proofs.Check.Passing

/-!
# What must hold of the parts of a job

For each part of a specification, what must hold of it, said without the checks: `WellFormed`.
Each check passes exactly the well-formed values (`passes_check`), so nothing that must hold is
forgotten and nothing else is refused.
-/

namespace Pipeline

open Check

/-! ## Texts -/

/-- A text whose references to variables can be read. -/
def Interpolation.Readable (s : String) : Prop := ∃ segments, parse s = .ok segments

/-- A pattern that can be read. -/
def Glob.Readable (pattern : String) : Prop := ∃ p, ofText pattern = .ok p

/-- A cron expression that can be read. -/
def Cron.Readable (expression : String) : Prop := ∃ s, Schedule.ofText expression = .ok s

/-! ## Caches -/

/-- Neither the key nor the path is blank. -/
@[mk_iff]
structure Cache.WellFormed (c : Cache) : Prop where
  key : Text.NonBlank c.key
  path : Text.NonBlank c.path

@[simp] theorem Cache.passes_check {c : Cache} : c.check.Passes ↔ c.WellFormed := by
  rw [wellFormed_iff]
  simp [check]

/-! ## Services -/

/-- A variable has a name. -/
@[mk_iff]
structure EnvVar.WellFormed (v : EnvVar) : Prop where
  name : Text.NonBlank v.name

@[simp] theorem EnvVar.passes_check {v : EnvVar} : v.check.Passes ↔ v.WellFormed := by
  rw [wellFormed_iff]
  simp [check]

/-- The texts that a service needs are not blank, and no variable is set twice. The arguments
may be anything. -/
@[mk_iff]
structure Service.WellFormed (s : Service) : Prop where
  name : Text.NonBlank s.name
  image : Text.NonBlank s.image
  readinessCheckCommand : Text.NonBlank s.readinessCheckCommand
  cpuRequirement : Text.NonBlank s.cpuRequirement
  memoryRequirement : Text.NonBlank s.memoryRequirement
  envVars : ∀ v ∈ s.envVars, v.WellFormed
  envVarNames : (s.envVars.map EnvVar.name).Nodup

@[simp] theorem Service.passes_check {s : Service} : s.check.Passes ↔ s.WellFormed := by
  rw [wellFormed_iff]
  simp [check]

/-! ## Parameters -/

/-- There are choices, and none is repeated. -/
def ParamKind.WellFormed : ParamKind → Prop
  | .choice choices => choices ≠ [] ∧ choices.Nodup
  | .text | .boolean | .integer | .secret => True

/-- The values that can be the default of a parameter. -/
def ParamKind.Admits : ParamKind → String → Prop
  | .text, _ => True
  | .boolean, value => value = "true" ∨ value = "false"
  | .integer, value => ∃ n, Text.signed? (Nat.pow 2 63) value.toList = some n
  | .choice choices, value => value ∈ choices
  | .secret, _ => False

/-- A parameter has a name, the kind is well-formed, and the default value is one of the kind. -/
@[mk_iff]
structure ParamSpec.WellFormed (p : ParamSpec) : Prop where
  name : Text.NonBlank p.name
  kind : p.kind.WellFormed
  defaultValue : ∀ value, p.defaultValue = some value → p.kind.Admits value

namespace ParamSpec

@[simp] theorem passes_checkKind {kind : ParamKind} :
    (checkKind kind).Passes ↔ kind.WellFormed := by
  cases kind <;> simp [checkKind, checkChoices, ParamKind.WellFormed]

@[simp] theorem passes_checkDefault {kind : ParamKind} {value : String} :
    (checkDefault kind value).Passes ↔ kind.Admits value := by
  cases kind <;>
    simp [checkDefault, ParamKind.Admits, isInteger, Option.isSome_iff_exists]

@[simp] theorem passes_check {p : ParamSpec} : p.check.Passes ↔ p.WellFormed := by
  rw [wellFormed_iff]
  simp [check]

end ParamSpec

/-- A supply has a name, and a secret has one value at the most. -/
@[mk_iff]
structure ParamSupply.WellFormed (p : ParamSupply) : Prop where
  name : Text.NonBlank p.name
  secret : p.secret = true → p.values.length ≤ 1

/-- Each supply is well-formed, and no two have one name. -/
@[mk_iff]
structure ParamSupply.ListWellFormed (supplies : List ParamSupply) : Prop where
  each : ∀ p ∈ supplies, p.WellFormed
  names : (supplies.map ParamSupply.name).Nodup

@[simp] theorem ParamSupply.passes_check {p : ParamSupply} : p.check.Passes ↔ p.WellFormed := by
  rw [wellFormed_iff]
  simp [check, imp_iff_not_or]

@[simp] theorem ParamSupply.passes_checkAll {supplies : List ParamSupply} :
    (checkAll supplies).Passes ↔ ListWellFormed supplies := by
  rw [listWellFormed_iff]
  simp [checkAll]

/-! ## Dependencies -/

/-- The other job has a name, and its parameters are well supplied. -/
@[mk_iff]
structure JobDependency.WellFormed (d : JobDependency) : Prop where
  jobName : Text.NonBlank d.jobName
  jobParams : ParamSupply.ListWellFormed d.jobParams

@[simp] theorem JobDependency.passes_check {d : JobDependency} :
    d.check.Passes ↔ d.WellFormed := by
  rw [wellFormed_iff]
  simp [check]

/-- The branch and the query are not blank, and builds are numbered from one. -/
def BuildSelector.WellFormed : BuildSelector → Prop
  | .lastFinished => True
  | .lastFinishedOnBranch branch => Text.NonBlank branch
  | .byNumber number => 0 < number
  | .byQuery query => Text.NonBlank query

@[simp] theorem BuildSelector.passes_check {b : BuildSelector} :
    b.check.Passes ↔ b.WellFormed := by
  cases b <;> simp [check, WellFormed, UInt64.pos_iff_ne_zero]

/-- The project and the artifacts are told, and so is the build. -/
@[mk_iff]
structure ProjectDependency.WellFormed (d : ProjectDependency) : Prop where
  projectPath : Text.NonBlank d.projectPath
  artifacts : Text.NonBlank d.artifacts
  build : d.build.WellFormed

@[simp] theorem ProjectDependency.passes_check {d : ProjectDependency} :
    d.check.Passes ↔ d.WellFormed := by
  rw [wellFormed_iff]
  simp [check]

/-! ## Reports -/

/-- No text of a report is blank. -/
@[mk_iff]
structure Report.WellFormed (r : Report) : Prop where
  reportName : Text.NonBlank r.reportName
  filePatterns : Text.NonBlank r.filePatterns
  startPage : ∀ page, r.startPage? = some page → Text.NonBlank page

@[simp] theorem Report.passes_check {r : Report} : r.check.Passes ↔ r.WellFormed := by
  rw [wellFormed_iff]
  simp [check]

/-! ## Actions and retries -/

/-- What an action needs is told. The message of a tag may be anything. -/
def ActionKind.WellFormed : ActionKind → Prop
  | .createTag tagName _ => Text.NonBlank tagName
  | .runJob jobName jobParams =>
    Text.NonBlank jobName ∧ ParamSupply.ListWellFormed jobParams
  | .sendNotification receivers => Text.NonBlank receivers

@[simp] theorem ActionKind.passes_check {k : ActionKind} : k.check.Passes ↔ k.WellFormed := by
  cases k <;> simp [check, WellFormed]

/-- There is a condition, and what the action needs is told. -/
@[mk_iff]
structure Action.WellFormed (a : Action) : Prop where
  condition : Text.NonBlank a.condition
  kind : a.kind.WellFormed

@[simp] theorem Action.passes_check {a : Action} : a.check.Passes ↔ a.WellFormed := by
  rw [wellFormed_iff]
  simp [check]

/-- There is a condition. -/
@[mk_iff]
structure RetryPolicy.WellFormed (p : RetryPolicy) : Prop where
  retryCondition : Text.NonBlank p.retryCondition

@[simp] theorem RetryPolicy.passes_check {p : RetryPolicy} : p.check.Passes ↔ p.WellFormed := by
  rw [wellFormed_iff]
  simp [check]

/-! ## Triggers -/

/-- Every pattern can be read, and so can the cron expression, which is not blank. -/
def Trigger.WellFormed : Trigger → Prop
  | .branchUpdate branches paths =>
    (∀ p ∈ branches, Glob.Readable p) ∧ ∀ p ∈ paths, Glob.Readable p
  | .tagCreate tags => ∀ p ∈ tags, Glob.Readable p
  | .pullRequest branches paths _ =>
    (∀ p ∈ branches, Glob.Readable p) ∧ ∀ p ∈ paths, Glob.Readable p
  | .dependencyFinished _ => True
  | .schedule cronExpression branches =>
    (Text.NonBlank cronExpression ∧ Cron.Readable cronExpression) ∧
      ∀ p ∈ branches, Glob.Readable p

namespace Trigger

@[simp] theorem passes_checkPattern {pattern : String} :
    (checkPattern pattern).Passes ↔ Glob.Readable pattern := by
  unfold checkPattern Glob.error? Glob.Readable
  cases h : Glob.ofText pattern <;> simp

@[simp] theorem passes_checkPatterns {patterns : List String} :
    (checkPatterns patterns).Passes ↔ ∀ p ∈ patterns, Glob.Readable p := by
  simp [checkPatterns]

@[simp] theorem passes_checkCron {expression : String} :
    (checkCron expression).Passes ↔ Text.NonBlank expression ∧ Cron.Readable expression := by
  rw [checkCron, passes_ite_isBlank, passes_notEmpty, Cron.Readable]
  by_cases hn : Text.NonBlank expression
  · cases h : Cron.Schedule.ofText expression <;> simp [hn]
  · simp [hn]

@[simp] theorem passes_check {t : Trigger} : t.check.Passes ↔ t.WellFormed := by
  cases t <;> simp [check, WellFormed]

end Trigger

end Pipeline
