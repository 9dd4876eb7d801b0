import Pipeline.Proofs.WellFormed.Parts

/-!
# What must hold of a job by itself

`Job.WellFormed` says it without the checks; `Job.passes_check` tells that the check of a job
passes exactly the well-formed ones. The check is made in groups, and the groups are not those
of the conditions: each group has a lemma of its own, and the conditions are put together from
them.
-/

namespace Pipeline

open Check

/-- A credential without an address, or with one of the web. -/
def Credential.WellFormed (c : Credential) : Prop :=
  ∀ url, c.url = some url →
    "http://".toList <+: url.toList ∨ "https://".toList <+: url.toList

namespace Job

/-- A text that says how much of a resource is needed: one that refers to variables, whose values
will tell, or a quantity. -/
def IsRequirement (s : String) : Prop :=
  Text.NonBlank s ∧ ∃ segments, Interpolation.parse s = .ok segments ∧
    (Interpolation.names segments ≠ [] ∨
      Interpolation.names segments = [] ∧ Quantity.isQuantity (Text.trim s) = true)

/-- What must hold of a job by itself. -/
structure WellFormed (j : Job) : Prop where
  name : Text.NonBlank j.name
  image : Text.NonBlank j.image ∧ Interpolation.Readable j.image
  commands : j.commands ≠ [] ∧ ∀ c ∈ j.commands, Interpolation.Readable c
  artifacts : ∀ patterns, j.artifacts = some patterns → Interpolation.Readable patterns
  cpuRequirement : IsRequirement j.cpuRequirement
  memoryRequirement : IsRequirement j.memoryRequirement
  timeout : 0 < j.timeout
  /-- How the source is retrieved matters only if it is. -/
  cloneDepth : j.retrieveSource = true → j.cloneDepth ≠ some 0
  submoduleCredentials : j.retrieveSource = true → ∀ c ∈ j.submoduleCredentials, c.WellFormed
  caches : ∀ c ∈ j.caches, c.WellFormed
  /-- Keys and paths are compared independently. -/
  cacheKeys : (j.caches.map Cache.key).Nodup
  cachePaths : (j.caches.map Cache.path).Nodup
  jobDependencies : ∀ d ∈ j.jobDependencies, d.WellFormed
  dependencyNames : j.dependencyNames.Nodup
  projectDependencies : ∀ d ∈ j.projectDependencies, d.WellFormed
  paramSpecs : ∀ p ∈ j.paramSpecs, p.WellFormed
  paramNames : (j.paramSpecs.map ParamSpec.name).Nodup
  services : ∀ s ∈ j.services, s.WellFormed
  serviceNames : (j.services.map Service.name).Nodup
  reports : ∀ r ∈ j.reports, r.WellFormed
  reportNames : (j.reports.map Report.reportName).Nodup
  triggers : ∀ t ∈ j.triggers, t.WellFormed
  postBuildActions : ∀ a ∈ j.postBuildActions, a.WellFormed
  retry : j.retry.WellFormed

/-! ## Texts -/

@[simp] theorem passes_checkInterpolation {s : String} :
    (checkInterpolation s).Passes ↔ Interpolation.Readable s := by
  unfold checkInterpolation Interpolation.Readable
  cases h : Interpolation.parse s <;> simp

@[simp] theorem passes_checkCredential {c : Credential} :
    (checkCredential c).Passes ↔ c.WellFormed := by
  rw [checkCredential, passes_field, passes_require, Credential.isWeb, Credential.WellFormed]
  cases h : c.url with
  | none => simp
  | some url => simp [Text.isSome_afterStart?_iff]

@[simp] theorem passes_checkRequirement {s : String} :
    (checkRequirement s).Passes ↔ IsRequirement s := by
  rw [checkRequirement, passes_ite_isBlank, passes_ite, passes_checkInterpolation,
    Interpolation.hasVariables, Interpolation.variableNames, IsRequirement,
    Interpolation.Readable]
  by_cases hn : Text.NonBlank s
  · -- A text that cannot be read counts as one with variables, and is refused where it is read.
    cases h : Interpolation.parse s with
    | error e => simp [hn]
    | ok segments => cases hs : Interpolation.names segments <;> simp [hn, hs]
  · simp [hn]

/-! ## The groups of the check -/

section

variable {j : Job}

theorem passes_checkExecution :
    j.checkExecution.Passes ↔
      (Text.NonBlank j.image ∧ Interpolation.Readable j.image) ∧
      (j.commands ≠ [] ∧ ∀ c ∈ j.commands, Interpolation.Readable c) ∧
      (∀ patterns, j.artifacts = some patterns → Interpolation.Readable patterns) ∧
      ((∀ s ∈ j.services, s.WellFormed) ∧ (j.services.map Service.name).Nodup) ∧
      (∀ r ∈ j.reports, r.WellFormed) ∧ (j.reports.map Report.reportName).Nodup := by
  simp [checkExecution, and_assoc]

theorem passes_checkCaches :
    j.checkCaches.Passes ↔ (∀ c ∈ j.caches, c.WellFormed) ∧
      (j.caches.map Cache.key).Nodup ∧ (j.caches.map Cache.path).Nodup := by
  simp [checkCaches]

theorem passes_checkDependencies :
    j.checkDependencies.Passes ↔ (∀ d ∈ j.jobDependencies, d.WellFormed) ∧
      j.dependencyNames.Nodup ∧ ∀ d ∈ j.projectDependencies, d.WellFormed := by
  simp [checkDependencies]

theorem passes_checkParamSpecs :
    j.checkParamSpecs.Passes ↔
      (∀ p ∈ j.paramSpecs, p.WellFormed) ∧ (j.paramSpecs.map ParamSpec.name).Nodup := by
  simp [checkParamSpecs]

/-- If the source is not retrieved, nothing has to hold of how it would be. -/
theorem passes_checkSource :
    j.checkSource.Passes ↔ (j.retrieveSource = true → j.cloneDepth ≠ some 0) ∧
      (j.retrieveSource = true → ∀ c ∈ j.submoduleCredentials, c.WellFormed) := by
  unfold checkSource
  cases j.retrieveSource <;> simp

theorem passes_checkResources :
    j.checkResources.Passes ↔
      IsRequirement j.cpuRequirement ∧ IsRequirement j.memoryRequirement ∧ 0 < j.timeout := by
  simp [checkResources, UInt64.pos_iff_ne_zero]

/-- The check of a job passes exactly the well-formed jobs. -/
@[simp] theorem passes_check : j.check.Passes ↔ j.WellFormed := by
  simp only [check, passes_all_cons, passes_all_nil, and_true, passes_field, passes_notEmpty,
    passes_each, passes_checkExecution, passes_checkCaches, passes_checkDependencies,
    passes_checkParamSpecs, passes_checkSource, passes_checkResources, Trigger.passes_check,
    Action.passes_check, RetryPolicy.passes_check]
  constructor
  · rintro ⟨name, ⟨image, commands, artifacts, ⟨services, serviceNames⟩, reports, reportNames⟩,
      ⟨caches, cacheKeys, cachePaths⟩,
      ⟨jobDependencies, dependencyNames, projectDependencies⟩, ⟨paramSpecs, paramNames⟩,
      ⟨cloneDepth, submoduleCredentials⟩, triggers, ⟨cpuRequirement, memoryRequirement, timeout⟩,
      postBuildActions, retry⟩
    exact { name, image, commands, artifacts, cpuRequirement, memoryRequirement, timeout,
            cloneDepth, submoduleCredentials, caches, cacheKeys, cachePaths, jobDependencies,
            dependencyNames, projectDependencies, paramSpecs, paramNames, services, serviceNames,
            reports, reportNames, triggers, postBuildActions, retry }
  · intro h
    refine ⟨h.name, ?_, ?_, ?_, ?_, ?_, h.triggers, ?_, h.postBuildActions, h.retry⟩
    · exact ⟨h.image, h.commands, h.artifacts, ⟨h.services, h.serviceNames⟩, h.reports,
        h.reportNames⟩
    · exact ⟨h.caches, h.cacheKeys, h.cachePaths⟩
    · exact ⟨h.jobDependencies, h.dependencyNames, h.projectDependencies⟩
    · exact ⟨h.paramSpecs, h.paramNames⟩
    · exact ⟨h.cloneDepth, h.submoduleCredentials⟩
    · exact ⟨h.cpuRequirement, h.memoryRequirement, h.timeout⟩

end

end Job

end Pipeline
