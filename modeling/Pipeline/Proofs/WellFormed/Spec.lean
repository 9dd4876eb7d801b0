import Pipeline.Proofs.WellFormed.Job

/-!
# What must hold of a specification

* `Spec.WellFormed`: the conditions, said without the checks.
* `Spec.passes_checkReference`: what the check of a reference asks for. It lets blank names pass;
  they are reported by the job, so both checks together ask for a name of another job.
* `Spec.violations_eq_nil_iff`: a specification has no problems exactly if it is well-formed.
-/

namespace Pipeline

open Check

namespace Spec

/-- `target` is the name of a job, and not that of the one that refers to it. -/
structure Refers (s : Spec) (owner target : String) : Prop where
  nonBlank : Text.NonBlank target
  ne_owner : target ≠ owner
  known : target ∈ s.jobNames

/-- What must hold of a specification. -/
structure WellFormed (s : Spec) : Prop where
  jobs : ∀ j ∈ s.jobs, j.WellFormed
  jobNames : s.jobNames.Nodup
  jobDependencies : ∀ j ∈ s.jobs, ∀ d ∈ j.jobDependencies, s.Refers j.name d.jobName
  postBuildActions : ∀ j ∈ s.jobs, ∀ a ∈ j.postBuildActions, ∀ target params,
    a.kind = .runJob target params → s.Refers j.name target

/-! ## References -/

theorem passes_checkReference {known : List String} {owner target : String} :
    (checkReference known owner target).Passes ↔
      (Text.NonBlank target → target ≠ owner ∧ target ∈ known) := by
  rw [checkReference, passes_ite_isBlank, passes_ite, passes_require, List.contains_iff_mem,
    beq_iff_eq]
  constructor
  · rintro ⟨-, h⟩ hn
    have hne : target ≠ owner := fun he => not_passes_fail ((h hn).1 he)
    exact ⟨hne, (h hn).2 hne⟩
  · intro h
    refine ⟨fun _ => passes_pass, fun hn => ⟨fun he => absurd he (h hn).1, fun _ => (h hn).2⟩⟩

theorem runJobName?_eq_some_iff {a : Action} {target : String} :
    a.runJobName? = some target ↔ ∃ params, a.kind = .runJob target params := by
  unfold Action.runJobName?
  cases a.kind <;> simp

theorem passes_checkReferences {known : List String} {j : Job} :
    (checkReferences known j).Passes ↔
      (∀ d ∈ j.jobDependencies, (checkReference known j.name d.jobName).Passes) ∧
      ∀ a ∈ j.postBuildActions, ∀ target params, a.kind = .runJob target params →
        (checkReference known j.name target).Passes := by
  simp [checkReferences, runJobName?_eq_some_iff]

/-- Of a name that is not blank, the check asks for what must hold of a reference. -/
theorem passes_checkReference_iff_refers {s : Spec} {owner target : String}
    (h : Text.NonBlank target) :
    (checkReference s.jobNames owner target).Passes ↔ s.Refers owner target := by
  rw [passes_checkReference]
  constructor
  · intro hr
    obtain ⟨hne, hk⟩ := hr h
    exact ⟨h, hne, hk⟩
  · intro hr _
    exact ⟨hr.ne_owner, hr.known⟩

/-- In a well-formed job no name that refers to a job is blank. -/
theorem passes_checkReferences_iff_refers {s : Spec} {j : Job} (hj : j.WellFormed) :
    (checkReferences s.jobNames j).Passes ↔
      (∀ d ∈ j.jobDependencies, s.Refers j.name d.jobName) ∧
      ∀ a ∈ j.postBuildActions, ∀ target params, a.kind = .runJob target params →
        s.Refers j.name target := by
  have hd (d) (h : d ∈ j.jobDependencies) : Text.NonBlank d.jobName :=
    (hj.jobDependencies d h).jobName
  have ha (a) (h : a ∈ j.postBuildActions) (target params)
      (hk : a.kind = .runJob target params) : Text.NonBlank target := by
    have := (hj.postBuildActions a h).kind
    rw [hk] at this
    exact this.1
  rw [passes_checkReferences]
  refine and_congr ?_ ?_
  · exact forall₂_congr fun d h => passes_checkReference_iff_refers (hd d h)
  · refine forall₂_congr fun a h => forall₃_congr fun target params hk => ?_
    exact passes_checkReference_iff_refers (ha a h target params hk)

/-! ## The check -/

theorem passes_check_iff {s : Spec} :
    s.check.Passes ↔ (∀ j ∈ s.jobs, j.WellFormed) ∧ s.jobNames.Nodup ∧
      ∀ j ∈ s.jobs, (checkReferences s.jobNames j).Passes := by
  simp [check]

/-- A specification has no problems exactly if it is well-formed. -/
theorem violations_eq_nil_iff (s : Spec) : s.violations = [] ↔ s.WellFormed := by
  refine passes_check_iff.trans ?_
  constructor
  · rintro ⟨jobs, jobNames, references⟩
    have hr (j) (hj : j ∈ s.jobs) :=
      (passes_checkReferences_iff_refers (jobs j hj)).mp (references j hj)
    exact { jobs, jobNames, jobDependencies := fun j hj => (hr j hj).1,
            postBuildActions := fun j hj => (hr j hj).2 }
  · intro h
    refine ⟨h.jobs, h.jobNames, fun j hj => ?_⟩
    rw [passes_checkReferences_iff_refers (h.jobs j hj)]
    exact ⟨h.jobDependencies j hj, h.postBuildActions j hj⟩

end Spec

end Pipeline
