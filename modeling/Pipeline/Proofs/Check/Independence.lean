import Mathlib.Data.List.Basic
import Pipeline.Proofs.Check.Relocation

/-!
# No check hides another

The check of a job goes through its fields in a fixed order and checks each of them by itself
(`Job.report_check`); what it reports below a field depends on that field alone, but for the two
fields that say how the source is retrieved, which count only if it is retrieved
(`JobField.check_congr`). So two jobs that differ in one field have the same problems elsewhere:
`Job.report_outside_eq`.
-/

namespace Pipeline

/-- The problems at none of the given paths and below none of them. -/
def Violations.outside (found : Violations) (paths : List FieldPath) : Violations :=
  found.filter fun v => paths.all fun p => !v.path.isUnder p

namespace Check

/-! ## Reports of the checks below one field -/

theorem report_pass : pass.report = [] := rfl

theorem report_all_nil : (all []).report = [] := rfl

theorem report_all_cons {c : Check} {cs : List Check} [Relocatable (all cs)] :
    (all (c :: cs)).report = c.report ++ (all cs).report :=
  report_andThen

section

variable {name : String}

theorem report_field_pass : (field name pass).report = [] := rfl

theorem report_field_all_nil : (field name (all [])).report = [] := rfl

theorem report_field_all_cons {c : Check} {cs : List Check} [Relocatable c]
    [Relocatable (all cs)] :
    (field name (all (c :: cs))).report = (field name c).report ++ (field name (all cs)).report := by
  rw [report_field, report_all_cons, List.map_append, ← report_field, ← report_field]

/-- The path of a problem below a field begins with the field. -/
theorem isUnder_field_iff {c : Check} [Relocatable c] {v : Violation} {key : String}
    (h : v ∈ (field name c).report) :
    v.path.isUnder (FieldPath.root.field key) = true ↔ name = key := by
  rw [report_field] at h
  obtain ⟨w, -, rfl⟩ := List.mem_map.mp h
  rw [@eq_comm _ name key]
  simp [FieldPath.isUnder, Violation.below, FieldPath.field, FieldPath.root]

/-- What is reported below a field is outside other fields, and not outside the field itself. -/
theorem outside_report_field {c : Check} [Relocatable c] (keys : List String) :
    (field name c).report.outside (keys.map FieldPath.root.field) =
      if name ∈ keys then [] else (field name c).report := by
  rw [Violations.outside]
  split
  · rename_i hk
    refine List.filter_eq_nil_iff.mpr fun v hv hall => ?_
    have := List.all_eq_true.mp hall _ (List.mem_map_of_mem hk)
    rw [(isUnder_field_iff hv).mpr rfl] at this
    exact absurd this (by decide)
  · rename_i hk
    refine List.filter_eq_self.mpr fun v hv => List.all_eq_true.mpr fun p hp => ?_
    obtain ⟨key, hkey, rfl⟩ := List.mem_map.mp hp
    rw [Bool.not_eq_true', Bool.eq_false_iff, Ne, isUnder_field_iff hv]
    rintro rfl
    exact hk hkey

end

end Check

open Check

/-! ## Fields -/

/-- The fields of a job, those of its retry policy among them. -/
inductive JobField where
  | name
  | paramSpecs
  | image
  | commands
  | retrieveSource
  | cloneDepth
  | submoduleCredentials
  | jobDependencies
  | projectDependencies
  | services
  | artifacts
  | reports
  | triggers
  | caches
  | cpuRequirement
  | memoryRequirement
  | timeout
  | postBuildActions
  | retryCondition
  | maxRetries
  | retryDelay
  deriving DecidableEq, Repr

namespace JobField

open Job (checkInterpolation checkCredential checkRequirement)

/-- The name of a field in the written form. -/
def key : JobField → String
  | .name => "name"
  | .paramSpecs => "param_specs"
  | .image => "image"
  | .commands => "commands"
  | .retrieveSource => "retrieve_source"
  | .cloneDepth => "clone_depth"
  | .submoduleCredentials => "submodule_credentials"
  | .jobDependencies => "job_dependencies"
  | .projectDependencies => "project_dependencies"
  | .services => "services"
  | .artifacts => "artifacts"
  | .reports => "reports"
  | .triggers => "triggers"
  | .caches => "caches"
  | .cpuRequirement => "cpu_requirement"
  | .memoryRequirement => "memory_requirement"
  | .timeout => "timeout"
  | .postBuildActions => "post_build_actions"
  | .retryCondition => "retry_condition"
  | .maxRetries => "max_retries"
  | .retryDelay => "retry_delay"

/-- Two jobs have one value of a field. -/
def Same (j k : Job) : JobField → Prop
  | .name => j.name = k.name
  | .paramSpecs => j.paramSpecs = k.paramSpecs
  | .image => j.image = k.image
  | .commands => j.commands = k.commands
  | .retrieveSource => j.retrieveSource = k.retrieveSource
  | .cloneDepth => j.cloneDepth = k.cloneDepth
  | .submoduleCredentials => j.submoduleCredentials = k.submoduleCredentials
  | .jobDependencies => j.jobDependencies = k.jobDependencies
  | .projectDependencies => j.projectDependencies = k.projectDependencies
  | .services => j.services = k.services
  | .artifacts => j.artifacts = k.artifacts
  | .reports => j.reports = k.reports
  | .triggers => j.triggers = k.triggers
  | .caches => j.caches = k.caches
  | .cpuRequirement => j.cpuRequirement = k.cpuRequirement
  | .memoryRequirement => j.memoryRequirement = k.memoryRequirement
  | .timeout => j.timeout = k.timeout
  | .postBuildActions => j.postBuildActions = k.postBuildActions
  | .retryCondition => j.retry.retryCondition = k.retry.retryCondition
  | .maxRetries => j.retry.maxRetries = k.retry.maxRetries
  | .retryDelay => j.retry.retryDelay = k.retry.retryDelay

/-- The fields below which the problems may depend on a field. -/
def reach : JobField → List JobField
  | .retrieveSource => [.cloneDepth, .submoduleCredentials]
  | f => [f]

/-- The fields that are checked, in the order of the checks. -/
def checked : List JobField :=
  [.name, .image, .commands, .artifacts, .services, .reports, .caches, .jobDependencies,
    .projectDependencies, .paramSpecs, .cloneDepth, .submoduleCredentials, .triggers,
    .cpuRequirement, .memoryRequirement, .timeout, .postBuildActions, .retryCondition]

/-- The check of the value of a field. -/
def check (j : Job) : JobField → Check
  | .name => .notEmpty j.name
  | .image => .all [.notEmpty j.image, checkInterpolation j.image]
  | .commands =>
    .all [.require (!j.commands.isEmpty) emptyMessage, .each checkInterpolation j.commands]
  | .artifacts => .optional checkInterpolation j.artifacts
  | .services =>
    .all [.each Service.check j.services,
      .noRepeats "Duplicate service" (.field "name") (j.services.map Service.name)]
  | .reports =>
    .all [.each Report.check j.reports,
      .noRepeats "Duplicate report" (.field "report_name") (j.reports.map Report.reportName)]
  | .caches =>
    .all [.each Cache.check j.caches,
      .noRepeats "Duplicate key" (.field "key") (j.caches.map Cache.key),
      .noRepeats "Duplicate path" (.field "path") (j.caches.map Cache.path)]
  | .jobDependencies =>
    .all [.each JobDependency.check j.jobDependencies,
      .noRepeats "Duplicate dependency" (.field "job_name") j.dependencyNames]
  | .projectDependencies => .each ProjectDependency.check j.projectDependencies
  | .paramSpecs =>
    .all [.each ParamSpec.check j.paramSpecs,
      .noRepeats "Duplicate parameter spec" (.field "name") (j.paramSpecs.map ParamSpec.name)]
  | .cloneDepth =>
    if j.retrieveSource then
      .require (j.cloneDepth != some 0) "Clone depth must be positive"
    else .pass
  | .submoduleCredentials =>
    if j.retrieveSource then .each checkCredential j.submoduleCredentials else .pass
  | .triggers => .each Trigger.check j.triggers
  | .cpuRequirement => checkRequirement j.cpuRequirement
  | .memoryRequirement => checkRequirement j.memoryRequirement
  | .timeout => .require (j.timeout != 0) "Timeout must be positive"
  | .postBuildActions => .each Action.check j.postBuildActions
  | .retryCondition => .notEmpty j.retry.retryCondition
  | .retrieveSource | .maxRetries | .retryDelay => .pass

instance (j : Job) (f : JobField) : Relocatable (f.check j) := by
  cases f <;> unfold check <;> infer_instance

variable {j k : Job}

theorem reach_of_ne {f : JobField} (h : f ≠ .retrieveSource) : f.reach = [f] := by
  cases f with
  | retrieveSource => exact absurd rfl h
  | _ => rfl

/-- The check of a field depends on no fields but those that reach it. -/
theorem check_congr {g : JobField} (h : ∀ f, g ∈ f.reach → Same j k f) : g.check j = g.check k := by
  by_cases hg : g = .retrieveSource
  · rw [hg]
    rfl
  have hself : Same j k g := h g (reach_of_ne hg ▸ List.mem_singleton_self g)
  cases g with
  | cloneDepth | submoduleCredentials =>
    have hsource : j.retrieveSource = k.retrieveSource := h .retrieveSource (by decide)
    simp only [Same] at hself
    simp only [check, hsource, hself]
  | jobDependencies =>
    simp only [Same] at hself
    simp only [check, Job.dependencyNames, hself]
  | _ =>
    simp only [Same] at hself
    simp only [check, hself]

end JobField

namespace Job

/-- Two jobs that have the same fields, with one exception. -/
def DifferOnlyIn (f : JobField) (j k : Job) : Prop := ∀ g, g ≠ f → JobField.Same j k g

/-! ## The check, field by field -/

/-- The check of a job is that of its fields. -/
theorem report_check (j : Job) :
    j.check.report = JobField.checked.flatMap fun f => (Check.field f.key (f.check j)).report := by
  cases hs : j.retrieveSource <;>
    simp only [check, checkExecution, checkCaches, checkDependencies, checkParamSpecs, checkSource,
      checkResources, RetryPolicy.check, JobField.checked, JobField.check, JobField.key, hs,
      Bool.false_eq_true, if_true, if_false, report_pass, report_all_cons, report_all_nil,
      report_field_pass, report_field_all_cons, report_field_all_nil, List.flatMap_cons,
      List.flatMap_nil, List.append_assoc, List.append_nil, List.nil_append]

/-- What is reported outside some fields is what the checks of the others report. -/
theorem outside_report_check (j : Job) (keys : List String) :
    j.check.report.outside (keys.map FieldPath.root.field) =
      JobField.checked.flatMap fun g =>
        if g.key ∈ keys then [] else (Check.field g.key (g.check j)).report := by
  rw [report_check, Violations.outside, List.filter_flatMap]
  exact List.flatMap_congr fun g _ => outside_report_field keys

/-- A field has no effect on what is reported outside the fields that it reaches. -/
theorem outside_reach {f : JobField} {j k : Job} (h : DifferOnlyIn f j k) :
    j.check.report.outside ((f.reach.map JobField.key).map FieldPath.root.field) =
      k.check.report.outside ((f.reach.map JobField.key).map FieldPath.root.field) := by
  rw [outside_report_check, outside_report_check]
  refine List.flatMap_congr fun g _ => ?_
  split
  · rfl
  · rename_i hg
    have hreach : ∀ other, g ∈ other.reach → JobField.Same j k other := fun other ho =>
      h other fun he => hg (List.mem_map_of_mem (he ▸ ho))
    rw [JobField.check_congr hreach]

/-- Of two jobs that differ in one field only, the same problems are reported elsewhere, in the
same order. Whether the source is retrieved has no problems of its own, but decides whether those
of the two fields are reported that say how. -/
theorem report_outside_eq :
    (∀ (f : JobField) (j k : Job), f ≠ .retrieveSource → DifferOnlyIn f j k →
      j.check.report.outside [FieldPath.root.field f.key] =
        k.check.report.outside [FieldPath.root.field f.key]) ∧
    ∀ j k : Job, DifferOnlyIn .retrieveSource j k →
      j.check.report.outside
          [FieldPath.root.field "clone_depth", FieldPath.root.field "submodule_credentials"] =
        k.check.report.outside
          [FieldPath.root.field "clone_depth", FieldPath.root.field "submodule_credentials"] := by
  refine ⟨fun f j k hf h => ?_, fun j k h => outside_reach h⟩
  have hreach := outside_reach h
  rwa [JobField.reach_of_ne hf] at hreach

/-- A job with little that is right. -/
def broken : Job :=
  { ofCommands "" " " ["echo @oops"] with
    cloneDepth := some 0, submoduleCredentials := [.ofUrl "ftp://x"], timeout := 0
    cpuRequirement := "2 cores" }

theorem report_outside_eq_broken :
    DifferOnlyIn .cpuRequirement broken { broken with cpuRequirement := "2" } ∧
    DifferOnlyIn .retrieveSource broken { broken with retrieveSource := false } ∧
    broken.check.report.outside [FieldPath.root.field "cpu_requirement"] =
      { broken with cpuRequirement := "2" }.check.report.outside
        [FieldPath.root.field "cpu_requirement"] ∧
    broken.check.report.outside
        [FieldPath.root.field "clone_depth", FieldPath.root.field "submodule_credentials"] =
      { broken with retrieveSource := false }.check.report.outside
        [FieldPath.root.field "clone_depth", FieldPath.root.field "submodule_credentials"] ∧
    broken.check.report.length = 7 := by
  have hcpu : DifferOnlyIn .cpuRequirement broken { broken with cpuRequirement := "2" } := by
    intro g hg
    cases g with
    | cpuRequirement => exact absurd rfl hg
    | _ => rfl
  have hsource : DifferOnlyIn .retrieveSource broken { broken with retrieveSource := false } := by
    intro g hg
    cases g with
    | retrieveSource => exact absurd rfl hg
    | _ => rfl
  obtain ⟨hfield, hretrieve⟩ := report_outside_eq
  exact ⟨hcpu, hsource, hfield _ _ _ (by decide) hcpu, hretrieve _ _ hsource, by decide +kernel⟩

end Job

end Pipeline
