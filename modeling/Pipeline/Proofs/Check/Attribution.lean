import Pipeline.Proofs.Check.Places

/-!
# Problems are attributed to places of the specification

Each check of a part of a specification reports at places of the written form of the part
(`reportsIn_check`), so the checks of a specification report at places of the whole document:
`Spec.attribution`.
-/

namespace Pipeline

open Check

/-! ## The parts of a job -/

theorem Cache.reportsIn_check (c : Cache) : c.check.ReportsIn c.encode := by
  simp only [check, reportsIn_all_cons, reportsIn_all_nil, and_true]
  refine ⟨?key, ?path⟩
  case key => exact .field (by decide) rfl reportsIn_notEmpty
  case path => exact .field (by decide) rfl reportsIn_notEmpty

theorem EnvVar.reportsIn_check (v : EnvVar) : v.check.ReportsIn v.encode :=
  .field (by decide) rfl reportsIn_notEmpty

theorem Service.reportsIn_check (s : Service) : s.check.ReportsIn s.encode := by
  simp only [check, reportsIn_all_cons, reportsIn_all_nil, and_true]
  refine ⟨?name, ?image, ?readiness, ?cpu, ?memory, ?envVars, ?envVarNames⟩
  case name => exact .field (by decide) rfl reportsIn_notEmpty
  case image => exact .field (by decide) rfl reportsIn_notEmpty
  case readiness => exact .field (by decide) rfl reportsIn_notEmpty
  case cpu => exact .field (by decide) rfl reportsIn_notEmpty
  case memory => exact .field (by decide) rfl reportsIn_notEmpty
  case envVars => exact .field (by decide) rfl (.each fun v _ => v.reportsIn_check)
  case envVarNames =>
    exact .field (by decide) rfl (.noRepeats_field (by decide) fun _ => ⟨_, rfl⟩)

namespace ParamSpec

/-- The choices of a kind stand inside the kind, one level below the parameter. -/
theorem reportsIn_checkKind (p : ParamSpec) : (checkKind p.kind).ReportsIn p.encode := by
  cases hk : p.kind with
  | choice choices =>
    have hw : p.encode.field? "kind" = some (ParamKind.choice choices).encode := hk ▸ rfl
    refine .field (by decide) hw (.field (by decide) rfl ?_)
    simp only [checkChoices, reportsIn_all_cons, reportsIn_all_nil, and_true]
    exact ⟨reportsIn_require, .noRepeats_texts⟩
  | text | boolean | integer | secret => exact reportsIn_pass

theorem reportsIn_checkDefault {kind : ParamKind} {value : String} {v : Json} :
    (checkDefault kind value).ReportsIn v := by
  unfold checkDefault
  split
  · exact reportsIn_pass
  · exact reportsIn_require
  · exact reportsIn_require
  · exact reportsIn_require
  · exact reportsIn_fail

theorem reportsIn_check (p : ParamSpec) : p.check.ReportsIn p.encode := by
  simp only [check, reportsIn_all_cons, reportsIn_all_nil, and_true]
  refine ⟨?name, p.reportsIn_checkKind, ?defaultValue⟩
  case name => exact .field (by decide) rfl reportsIn_notEmpty
  case defaultValue => exact .field (by decide) rfl (.optional fun _ => reportsIn_checkDefault)

end ParamSpec

namespace ParamSupply

theorem reportsIn_check (p : ParamSupply) : p.check.ReportsIn p.encode := by
  simp only [check, reportsIn_all_cons, reportsIn_all_nil, and_true]
  refine ⟨?name, ?values⟩
  case name => exact .field (by decide) rfl reportsIn_notEmpty
  case values => exact .field (by decide) rfl reportsIn_require

theorem reportsIn_checkAll (supplies : List ParamSupply) :
    (checkAll supplies).ReportsIn (.arr (supplies.map encode)) := by
  simp only [checkAll, reportsIn_all_cons, reportsIn_all_nil, and_true]
  refine ⟨.each fun p _ => p.reportsIn_check, ?_⟩
  exact .noRepeats_field (by decide) fun _ => ⟨_, rfl⟩

end ParamSupply

theorem JobDependency.reportsIn_check (d : JobDependency) : d.check.ReportsIn d.encode := by
  simp only [check, reportsIn_all_cons, reportsIn_all_nil, and_true]
  refine ⟨?jobName, ?jobParams⟩
  case jobName => exact .field (by decide) rfl reportsIn_notEmpty
  case jobParams => exact .field (by decide) rfl (ParamSupply.reportsIn_checkAll _)

theorem BuildSelector.reportsIn_check (b : BuildSelector) : b.check.ReportsIn b.encode := by
  cases b with
  | lastFinished => exact reportsIn_pass
  | lastFinishedOnBranch branch => exact .field (by decide) rfl reportsIn_notEmpty
  | byNumber number => exact .field (by decide) rfl reportsIn_require
  | byQuery query => exact .field (by decide) rfl reportsIn_notEmpty

theorem ProjectDependency.reportsIn_check (d : ProjectDependency) :
    d.check.ReportsIn d.encode := by
  simp only [check, reportsIn_all_cons, reportsIn_all_nil, and_true]
  refine ⟨?projectPath, ?artifacts, ?build⟩
  case projectPath => exact .field (by decide) rfl reportsIn_notEmpty
  case artifacts => exact .field (by decide) rfl reportsIn_notEmpty
  case build => exact .field (by decide) rfl d.build.reportsIn_check

/-- Only pages of text have a first page, and only for them it is checked. -/
theorem Report.reportsIn_check (r : Report) : r.check.ReportsIn r.encode := by
  simp only [check, reportsIn_all_cons, reportsIn_all_nil, and_true]
  refine ⟨?reportName, ?filePatterns, ?startPage⟩
  case reportName => cases r <;> exact .field (by decide) rfl reportsIn_notEmpty
  case filePatterns => cases r <;> exact .field (by decide) rfl reportsIn_notEmpty
  case startPage =>
    cases r with
    | files format name patterns => exact reportsIn_pass
    | markdown name patterns startPage => exact .field (by decide) rfl reportsIn_notEmpty

/-- The fields of what is done stand beside the condition. -/
theorem Action.reportsIn_check (a : Action) : a.check.ReportsIn a.encode := by
  simp only [check, reportsIn_all_cons, reportsIn_all_nil, and_true]
  refine ⟨.field (by decide) rfl reportsIn_notEmpty, ?_⟩
  obtain ⟨condition, kind⟩ := a
  cases kind with
  | createTag tagName tagMessage => exact .field (by decide) rfl reportsIn_notEmpty
  | runJob jobName jobParams =>
    simp only [ActionKind.check, reportsIn_all_cons, reportsIn_all_nil, and_true]
    refine ⟨.field (by decide) rfl reportsIn_notEmpty, ?_⟩
    exact .field (by decide) rfl (ParamSupply.reportsIn_checkAll _)
  | sendNotification receivers => exact .field (by decide) rfl reportsIn_notEmpty

namespace Trigger

theorem reportsIn_checkPattern {pattern : String} {v : Json} :
    (checkPattern pattern).ReportsIn v := by
  unfold checkPattern
  split
  · exact reportsIn_pass
  · exact reportsIn_fail

theorem reportsIn_checkPatterns {patterns : List String} :
    (checkPatterns patterns).ReportsIn (.texts patterns) :=
  .each_texts fun _ => reportsIn_checkPattern

theorem reportsIn_checkCron {expression : String} {v : Json} :
    (checkCron expression).ReportsIn v := by
  unfold checkCron
  split
  · exact reportsIn_notEmpty
  · split
    · exact reportsIn_pass
    · exact reportsIn_fail

/-- Branches and paths, as triggers for commits and for pull requests name them. -/
theorem reportsIn_checkPlaces {branches paths : List String} {v : Json}
    (hb : v.field? "branches" = some (.texts branches))
    (hp : v.field? "paths" = some (.texts paths)) :
    (Check.all [.field "branches" (checkPatterns branches),
      .field "paths" (checkPatterns paths)]).ReportsIn v := by
  simp only [reportsIn_all_cons, reportsIn_all_nil, and_true]
  refine ⟨?_, ?_⟩
  · exact .field (by decide) hb reportsIn_checkPatterns
  · exact .field (by decide) hp reportsIn_checkPatterns

theorem reportsIn_check (t : Trigger) : t.check.ReportsIn t.encode := by
  cases t with
  | branchUpdate branches paths => exact reportsIn_checkPlaces rfl rfl
  | tagCreate tags => exact .field (by decide) rfl reportsIn_checkPatterns
  | pullRequest branches paths actions => exact reportsIn_checkPlaces rfl rfl
  | dependencyFinished requireSuccessful => exact reportsIn_pass
  | schedule cronExpression branches =>
    simp only [check, reportsIn_all_cons, reportsIn_all_nil, and_true]
    refine ⟨?_, ?_⟩
    · exact .field (by decide) rfl reportsIn_checkCron
    · exact .field (by decide) rfl reportsIn_checkPatterns

end Trigger

/-! ## Jobs -/

namespace Job

theorem reportsIn_checkInterpolation {s : String} {v : Json} :
    (checkInterpolation s).ReportsIn v := by
  unfold checkInterpolation
  split
  · exact reportsIn_pass
  · exact reportsIn_fail

theorem reportsIn_checkRequirement {s : String} {v : Json} :
    (checkRequirement s).ReportsIn v := by
  unfold checkRequirement
  split
  · exact reportsIn_fail
  · split
    · exact reportsIn_checkInterpolation
    · exact reportsIn_require

theorem reportsIn_checkCredential (c : Credential) : (checkCredential c).ReportsIn c.encode :=
  .field (by decide) rfl reportsIn_require

variable (j : Job)

theorem reportsIn_checkExecution : j.checkExecution.ReportsIn j.encode := by
  simp only [checkExecution, reportsIn_all_cons, reportsIn_all_nil, and_true]
  refine ⟨?image, ?imageText, ?commands, ?commandTexts, ?artifacts, ?services, ?serviceNames,
    ?reports, ?reportNames⟩
  case image => exact .field (by decide) rfl reportsIn_notEmpty
  case imageText => exact .field (by decide) rfl reportsIn_checkInterpolation
  case commands => exact .field (by decide) rfl reportsIn_require
  case commandTexts =>
    exact .field (by decide) rfl (.each_texts fun _ => reportsIn_checkInterpolation)
  case artifacts =>
    exact .field (by decide) rfl (.optional fun _ => reportsIn_checkInterpolation)
  case services => exact .field (by decide) rfl (.each fun s _ => s.reportsIn_check)
  case serviceNames =>
    exact .field (by decide) rfl (.noRepeats_field (by decide) fun _ => ⟨_, rfl⟩)
  case reports => exact .field (by decide) rfl (.each fun r _ => r.reportsIn_check)
  case reportNames =>
    refine .field (by decide) rfl (.noRepeats_field (by decide) fun r => ?_)
    cases r <;> exact ⟨_, rfl⟩

theorem reportsIn_checkCaches : j.checkCaches.ReportsIn j.encode := by
  refine .field (by decide) rfl ?_
  simp only [reportsIn_all_cons, reportsIn_all_nil, and_true]
  refine ⟨.each fun c _ => c.reportsIn_check, ?keys, ?paths⟩
  case keys => exact .noRepeats_field (by decide) fun _ => ⟨_, rfl⟩
  case paths => exact .noRepeats_field (by decide) fun _ => ⟨_, rfl⟩

theorem reportsIn_checkDependencies : j.checkDependencies.ReportsIn j.encode := by
  simp only [checkDependencies, reportsIn_all_cons, reportsIn_all_nil, and_true]
  refine ⟨?jobs, ?names, ?projects⟩
  case jobs => exact .field (by decide) rfl (.each fun d _ => d.reportsIn_check)
  case names => exact .field (by decide) rfl (.noRepeats_field (by decide) fun _ => ⟨_, rfl⟩)
  case projects => exact .field (by decide) rfl (.each fun d _ => d.reportsIn_check)

theorem reportsIn_checkParamSpecs : j.checkParamSpecs.ReportsIn j.encode := by
  refine .field (by decide) rfl ?_
  simp only [reportsIn_all_cons, reportsIn_all_nil, and_true]
  refine ⟨.each fun p _ => p.reportsIn_check, ?_⟩
  exact .noRepeats_field (by decide) fun _ => ⟨_, rfl⟩

theorem reportsIn_checkSource : j.checkSource.ReportsIn j.encode := by
  unfold checkSource
  split
  · simp only [reportsIn_all_cons, reportsIn_all_nil, and_true]
    refine ⟨.field (by decide) rfl reportsIn_require, ?_⟩
    exact .field (by decide) rfl (.each fun c _ => reportsIn_checkCredential c)
  · exact reportsIn_pass

theorem reportsIn_checkResources : j.checkResources.ReportsIn j.encode := by
  simp only [checkResources, reportsIn_all_cons, reportsIn_all_nil, and_true]
  refine ⟨?cpu, ?memory, ?timeout⟩
  case cpu => exact .field (by decide) rfl reportsIn_checkRequirement
  case memory => exact .field (by decide) rfl reportsIn_checkRequirement
  case timeout => exact .field (by decide) rfl reportsIn_require

/-- The fields of the retry policy stand beside those of the job. -/
theorem reportsIn_check : j.check.ReportsIn j.encode := by
  simp only [check, reportsIn_all_cons, reportsIn_all_nil, and_true]
  refine ⟨?name, j.reportsIn_checkExecution, j.reportsIn_checkCaches,
    j.reportsIn_checkDependencies, j.reportsIn_checkParamSpecs, j.reportsIn_checkSource, ?triggers,
    j.reportsIn_checkResources, ?actions, ?retry⟩
  case name => exact .field (by decide) rfl reportsIn_notEmpty
  case triggers => exact .field (by decide) rfl (.each fun t _ => t.reportsIn_check)
  case actions => exact .field (by decide) rfl (.each fun a _ => a.reportsIn_check)
  case retry => exact .field (by decide) rfl reportsIn_notEmpty

end Job

/-! ## Specifications -/

namespace Spec

theorem reportsIn_checkReference {known : List String} {owner target : String} {v : Json} :
    (checkReference known owner target).ReportsIn v := by
  unfold checkReference
  split
  · exact reportsIn_pass
  · split
    · exact reportsIn_fail
    · exact reportsIn_require

/-- Of the actions, only those that run a job have the field in which it is named. -/
theorem reportsIn_checkRunJob (known : List String) (owner : String) (a : Action) :
    (Check.field "job_name"
      (Check.optional (checkReference known owner) a.runJobName?)).ReportsIn a.encode := by
  obtain ⟨condition, kind⟩ := a
  cases kind with
  | runJob jobName jobParams => exact .field (by decide) rfl reportsIn_checkReference
  | createTag | sendNotification => exact reportsIn_pass

theorem reportsIn_checkReferences (known : List String) (j : Job) :
    (checkReferences known j).ReportsIn j.encode := by
  simp only [checkReferences, reportsIn_all_cons, reportsIn_all_nil, and_true]
  refine ⟨?dependencies, ?actions⟩
  case dependencies =>
    exact .field (by decide) rfl
      (.each fun _ _ => .field (by decide) rfl reportsIn_checkReference)
  case actions =>
    exact .field (by decide) rfl (.each fun a _ => reportsIn_checkRunJob known j.name a)

theorem reportsIn_check (s : Spec) : s.check.ReportsIn s.encode := by
  refine .field (by decide) rfl ?_
  simp only [reportsIn_all_cons, reportsIn_all_nil, and_true]
  refine ⟨.each fun j _ => j.reportsIn_check, ?_, ?_⟩
  · exact .noRepeats_field (by decide) fun _ => ⟨_, rfl⟩
  · exact .each fun j _ => reportsIn_checkReferences s.jobNames j

/-- The path of every problem leads through the written form of the specification to a value
that is there, and is read back from its own written form. Positions are numbers of 64 bits, so
the latter is said of specifications none of whose lists has more entries than these can count. -/
theorem attribution (s : Spec) (found : Violation) (h : found ∈ s.violations) :
    (∃ value, s.encode.follow? found.path = some value) ∧
      (s.encode.Addressable → FieldPath.ofText found.path.text = found.path) := by
  have hp : s.encode.HasPlace found.path := s.reportsIn_check found h
  exact ⟨hp.exists_value, hp.ofText_text⟩

/-- A job with a parameter one of whose choices is repeated, and an action that hands a blank
parameter to itself. -/
def muddled : Spec :=
  .ofJobs [{ Job.ofCommands "build" "alpine" ["make"] with
    paramSpecs := [ParamSpec.ofName "level",
      { ParamSpec.ofName "mode" with kind := .choice ["fast", "safe", "fast"] }]
    postBuildActions := [⟨"successful", .runJob "build" [⟨" ", [], false⟩]⟩] }]

theorem attribution_muddled :
    let choice : Violation := ⟨[.field "jobs", .index 0, .field "param_specs", .index 1,
      .field "kind", .field "choices", .index 2], "Duplicate choice: fast"⟩
    choice ∈ muddled.violations ∧ muddled.encode.Addressable ∧
      choice.path.text = "jobs[0].param_specs[1].kind.choices[2]" ∧
      (∃ value, muddled.encode.follow? choice.path = some value) ∧
      FieldPath.ofText choice.path.text = choice.path := by
  intro choice
  have hv : choice ∈ muddled.violations := by decide +kernel
  have ha : muddled.encode.Addressable := by decide +kernel
  obtain ⟨hw, ht⟩ := attribution muddled choice hv
  exact ⟨hv, ha, by decide +kernel, hw, ht ha⟩

end Spec

end Pipeline
