import Pipeline.Proofs.Check.Messages
import Pipeline.Proofs.WellFormed.Graph

/-!
# The order of the jobs does not matter

Jobs are checked in order, a repeated name is reported at the later job, and the graph is built
and searched in order. Still the jobs may be put in any other order.

* `Spec.messages_check`: what is said of a specification, by its jobs, its repeated names and the
  references of its jobs, each of which only reads the names as a set or counts them
  (`Spec.messages_perm`).
* `Spec.isValid_perm`: that jobs can be ordered is told by their dependencies alone.
* `Spec.validate_perm`: the same messages, up to their order, and the same verdict.
-/

namespace Pipeline

open Check Relation

namespace Spec

variable {s s' : Spec}

/-! ## Messages -/

/-- References are looked up in the names as a set. -/
theorem checkReferences_congr {known known' : List String} (h : ∀ n, n ∈ known ↔ n ∈ known')
    (j : Job) : checkReferences known j = checkReferences known' j := by
  have hc (target : String) : known.contains target = known'.contains target := by
    rw [Bool.eq_iff_iff, List.contains_iff_mem, List.contains_iff_mem, h]
  have hr : checkReference known j.name = checkReference known' j.name := by
    funext target
    rw [checkReference, checkReference, hc]
  rw [checkReferences, checkReferences, hr]

theorem messages_check (s : Spec) :
    s.check.messages =
      (s.jobs.flatMap fun j => j.check.messages) ++
      ((repeated s.jobNames).map fun name => "Duplicate job: " ++ name) ++
      s.jobs.flatMap fun j => (checkReferences s.jobNames j).messages := by
  simp [check]

theorem jobNames_perm (h : s'.jobs.Perm s.jobs) : s'.jobNames.Perm s.jobNames := h.map Job.name

theorem messages_perm (h : s'.jobs.Perm s.jobs) : s'.check.messages.Perm s.check.messages := by
  have hn := jobNames_perm h
  have hr : checkReferences s'.jobNames = checkReferences s.jobNames :=
    funext (checkReferences_congr fun n => hn.mem_iff)
  rw [messages_check, messages_check, hr]
  exact ((h.flatMap_right _).append ((repeated_perm hn).map _)).append (h.flatMap_right _)

/-! ## The verdict -/

theorem eq_nil_iff_of_perm {α : Type} {l l' : List α} (h : l.Perm l') : l = [] ↔ l' = [] := by
  rw [← List.isEmpty_iff, h.isEmpty_eq, List.isEmpty_iff]

theorem violations_eq_nil_perm (h : s'.jobs.Perm s.jobs) :
    s'.violations = [] ↔ s.violations = [] := by
  have hm := eq_nil_iff_of_perm (messages_perm h)
  rwa [messages, messages, List.map_eq_nil_iff, List.map_eq_nil_iff] at hm

theorem dependsOn_perm (h : s'.jobs.Perm s.jobs) : s'.DependsOn = s.DependsOn := by
  funext n d
  simp only [DependsOn, h.mem_iff]

theorem resolved_perm (h : s'.jobs.Perm s.jobs) : s'.Resolved ↔ s.Resolved := by
  simp only [Resolved, h.mem_iff, (jobNames_perm h).mem_iff]

theorem isValid_perm (h : s'.jobs.Perm s.jobs) : s'.validate.isValid = s.validate.isValid := by
  have hviolations := violations_eq_nil_perm h
  have hjobs : s'.jobs ≠ [] ↔ s.jobs ≠ [] := (eq_nil_iff_of_perm h).not
  have hcyclic : s'.Cyclic ↔ s.Cyclic := by rw [Cyclic, Cyclic, dependsOn_perm h]
  rw [Bool.eq_iff_iff, isValid_validate_iff, isValid_validate_iff, JobGraph.exists_ofSpec_ok_iff,
    JobGraph.exists_ofSpec_ok_iff, hviolations, hjobs, resolved_perm h, hcyclic]

/-- The jobs of a specification can be put in any order: the same problems are found as often as
before, and the specification is acceptable if it was. -/
theorem validate_perm (h : s'.jobs.Perm s.jobs) :
    (s'.violations.map Violation.message).Perm (s.violations.map Violation.message) ∧
    (s'.violations = [] ↔ s.violations = []) ∧
    s'.validate.isValid = s.validate.isValid :=
  ⟨messages_perm h, violations_eq_nil_perm h, isValid_perm h⟩

/-- A name that two jobs have, a dependency on no job, and a job that depends on itself. -/
def tangled : Spec :=
  .ofJobs [.waitingFor "test" ["build", "lint"], .waitingFor "build" ["test"],
    .waitingFor "test" ["test"]]

/-- The last job of `tangled` comes first. The repeated name is reported at the other job. -/
def retangled : Spec :=
  .ofJobs [.waitingFor "test" ["test"], .waitingFor "test" ["build", "lint"],
    .waitingFor "build" ["test"]]

theorem validate_perm_tangled :
    retangled.jobs.Perm tangled.jobs ∧ retangled.violations ≠ tangled.violations ∧
    (retangled.violations.map Violation.message).Perm
      (tangled.violations.map Violation.message) ∧
    (retangled.violations = [] ↔ tangled.violations = []) ∧
    retangled.validate.isValid = tangled.validate.isValid := by
  have h : retangled.jobs.Perm tangled.jobs :=
    (List.Perm.swap _ _ _).trans (.cons _ (.swap _ _ _))
  have hne : retangled.violations ≠ tangled.violations := by decide +kernel
  exact ⟨h, hne, validate_perm h⟩

end Spec

end Pipeline
