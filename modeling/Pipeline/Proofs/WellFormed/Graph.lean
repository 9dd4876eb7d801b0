import Pipeline.Proofs.Graph.Cycle
import Pipeline.Proofs.WellFormed.Spec
import Pipeline.Validation

/-!
# The checks and the graph decide alike

References between jobs are looked at twice: by the checks of a specification, which compare names,
and when its graph is built, which looks up positions. What passes the checks is taken by the
graph, but for circles that the checks cannot see:

* `Spec.refers_of_dependsOn`: in a specification without problems, a dependency is the name of
  another job.
* `Spec.isValid_validate_iff`: a specification is acceptable if it has no problems and a graph.
* `Spec.validate_agrees_with_graph`: how the outcomes of both fit together.
-/

namespace Pipeline

open Relation

namespace Spec

variable {s : Spec}

/-! ## References -/

/-- What a job without problems depends on is the name of another job. -/
theorem refers_of_dependsOn (h : s.violations = []) {n d : String} (hd : s.DependsOn n d) :
    s.Refers n d := by
  obtain ⟨hj, -, hr⟩ := passes_check_iff.mp h
  obtain ⟨j, hjs, rfl, hdj⟩ := hd
  obtain ⟨dependency, hdep, rfl⟩ := List.mem_map.mp hdj
  exact ((passes_checkReferences_iff_refers (hj j hjs)).mp (hr j hjs)).1 dependency hdep

theorem resolved_of_violations_eq_nil (h : s.violations = []) : s.Resolved :=
  fun j hj _ hd => (refers_of_dependsOn h ⟨j, hj, rfl, hd⟩).known

/-- A job without problems does not depend on itself directly, so a circle leads through another
name. -/
theorem exists_ne_in_circle (h : s.violations = []) {m : String} (hm : TransGen s.DependsOn m m) :
    ∃ d, d ≠ m ∧ TransGen s.DependsOn d m ∧ TransGen s.DependsOn m d := by
  obtain ⟨d, hd, hdm⟩ := TransGen.head'_iff.mp hm
  have hne : d ≠ m := (refers_of_dependsOn h hd).ne_owner
  exact ⟨d, hne, (reflTransGen_iff_eq_or_transGen.mp hdm).resolve_left hne.symm, .single hd⟩

/-! ## The report -/

theorem graphError?_eq_none_iff : s.graphError? = none ↔ ∃ g, JobGraph.ofSpec s = .ok g := by
  unfold graphError?
  cases JobGraph.ofSpec s <;> simp

theorem isValid_validate_iff :
    s.validate.isValid = true ↔ s.violations = [] ∧ ∃ g, JobGraph.ofSpec s = .ok g := by
  rw [← graphError?_eq_none_iff]
  by_cases h : s.violations = []
  · simp [validate, ValidationReport.isValid, h]
  · simp [validate, ValidationReport.isValid, h]

/-- A specification is acceptable exactly if it has no problems and at least one job, and no job
depends on itself. Where the checks find nothing, every dependency is known to the graph too, and
a circle has at least two jobs. -/
theorem validate_agrees_with_graph (s : Spec) :
    (s.validate.isValid = true ↔ s.violations = [] ∧ s.jobs ≠ [] ∧ ¬ s.Cyclic) ∧
    (s.violations = [] →
      (∀ job dependency, JobGraph.ofSpec s ≠ .error (.unknownDependency job dependency)) ∧
      (JobGraph.ofSpec s = .error .noJobs → s.jobs = []) ∧
      ∀ names, JobGraph.ofSpec s = .error (.cycle names) →
        2 ≤ names.length ∧ names.Nodup ∧ ∀ n ∈ names, n ∈ s.jobNames) := by
  refine ⟨?_, fun h => ⟨?_, ?_, ?_⟩⟩
  · rw [isValid_validate_iff, JobGraph.exists_ofSpec_ok_iff]
    exact and_congr_right fun h => by simp [resolved_of_violations_eq_nil h]
  · intro job dependency he
    exact JobGraph.not_resolved_of_ofSpec_unknown he (resolved_of_violations_eq_nil h)
  · exact JobGraph.jobs_eq_nil_of_ofSpec_noJobs
  · intro names he
    obtain ⟨-, hr, hc, g, hg, rfl⟩ := JobGraph.of_ofSpec_cycle he
    obtain ⟨hnd, m, hm, hmem⟩ := JobGraph.exists_mem_cycle_iff hg hr hc
    obtain ⟨d, hne, hdm, hmd⟩ := exists_ne_in_circle h hm
    have hd : [d, m].Nodup := by simp [hne]
    have hs : [d, m] ⊆ g.cycle := by simp [hmem, hm, hdm, hmd]
    exact ⟨(List.subperm_of_subset hd hs).length_le, hnd,
      fun n hn => mem_jobNames_of_chain ((hmem n).mp hn).1⟩

/-- Two jobs that wait for each other, and one that waits for nothing. -/
def circle : Spec :=
  .ofJobs [.waitingFor "test" ["build"], .waitingFor "lint" [], .waitingFor "build" ["test"]]

theorem validate_agrees_with_graph_circle :
    circle.violations = [] ∧ JobGraph.ofSpec circle = .error (.cycle ["build", "test"]) ∧
    2 ≤ ["build", "test"].length ∧ ["build", "test"].Nodup ∧
      ∀ n ∈ ["build", "test"], n ∈ circle.jobNames := by
  have hv : circle.violations = [] := by decide +kernel
  have hg : JobGraph.ofSpec circle = .error (.cycle ["build", "test"]) := by cbv
  exact ⟨hv, hg, ((validate_agrees_with_graph circle).2 hv).2.2 _ hg⟩

end Spec

end Pipeline
