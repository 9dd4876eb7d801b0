import Pipeline.Proofs.Dispatch.Firing
import Pipeline.Proofs.Graph.Neighbours
import Pipeline.Proofs.WellFormed.Graph

/-!
# Jobs that start each other

The end of a build can start further jobs, whose ends start further ones. In an acceptable
specification such a cascade follows the edges of the graph, so it comes to an end.

* `Spec.Starts`: the end of a build of one job starts another one.
* `Spec.dependsOn_of_dispatch`: a job that is started by the end of a build depends on it.
* `nodup_of_isChain`: along a relation without cycles, nothing is come to twice.
* `Spec.cascade_bounded`: what is started is a successor, and no job is started twice in a cascade.
-/

namespace Pipeline

open Relation

section Chains

variable {α : Type} {r : α → α → Prop} {l : List α}

theorem pairwise_transGen_of_isChain (h : l.IsChain r) : l.Pairwise (TransGen r) :=
  List.isChain_iff_pairwise.mp (h.imp fun _ _ => TransGen.single)

/-- A chain of a relation without cycles goes through different elements. -/
theorem nodup_of_isChain (hr : ∀ x, ¬ TransGen r x x) (h : l.IsChain r) : l.Nodup := by
  refine (pairwise_transGen_of_isChain h).imp fun hab he => ?_
  exact hr _ (he ▸ hab)

end Chains

namespace Spec

variable {s : Spec}

/-- The end of a build of one job, however it ended, starts another job. -/
def Starts (s : Spec) (job next : String) : Prop :=
  ∃ status refName, ∃ d ∈ s.dispatch (.buildFinished job status refName), d.jobName = next

/-- A job that the end of a build starts depends on the job that was built. -/
theorem dependsOn_of_dispatch {job : String} {status : BuildStatus} {refName : Option String}
    {d : Dispatch} (h : d ∈ s.dispatch (.buildFinished job status refName)) :
    s.DependsOn d.jobName job := by
  obtain ⟨j, hj, hn, hm⟩ := mem_dispatch.mp h
  obtain ⟨-, hf⟩ := Job.getElem?_of_matchedTrigger? hm
  obtain ⟨_, -, hdep, -⟩ := Trigger.fires_buildFinished_iff.mp hf
  exact ⟨j, hj, hn.symm, hdep⟩

theorem Starts.dependsOn {job next : String} (h : s.Starts job next) : s.DependsOn next job := by
  obtain ⟨status, refName, d, hd, rfl⟩ := h
  exact dependsOn_of_dispatch hd

/-- Along a cascade, the later job depends on the earlier one. -/
theorem chain_of_cascade {job next : String} (h : TransGen s.Starts job next) :
    TransGen s.DependsOn next job := by
  induction h with
  | single h => exact .single h.dependsOn
  | tail _ h ih => exact .head h.dependsOn ih

/-- A cascade of at least two jobs goes through jobs of the specification only. -/
theorem mem_jobNames_of_cascade (hr : s.Resolved) {first second : String} {rest : List String}
    (h : (first :: second :: rest).IsChain s.Starts) :
    ∀ n ∈ first :: second :: rest, n ∈ s.jobNames := by
  have hrest := (List.pairwise_cons.mp (pairwise_transGen_of_isChain h)).1
  intro n hn
  rcases List.mem_cons.mp hn with rfl | hn
  · obtain ⟨j, hj, -, hdep⟩ := h.rel.dependsOn
    exact hr j hj n hdep
  · exact mem_jobNames_of_chain (chain_of_cascade (hrest n hn))

/-- In an acceptable specification, the end of a build starts only successors of the job, and a
cascade of jobs that start each other comes to no job twice, so it has fewer steps than there are
jobs. -/
theorem cascade_bounded (h : s.validate.isValid = true) :
    ∃ g, JobGraph.ofSpec s = .ok g ∧
      (∀ job status refName, ∀ d ∈ s.dispatch (.buildFinished job status refName),
        d.jobName ∈ g.successors job) ∧
      ∀ first rest, (first :: rest).IsChain s.Starts →
        (first :: rest).Nodup ∧ rest.length < s.jobs.length := by
  obtain ⟨-, g, hok⟩ := isValid_validate_iff.mp h
  obtain ⟨hne, hr, hg, hc⟩ := JobGraph.of_ofSpec_ok hok
  refine ⟨g, hok, fun job status refName d hd => ?_, fun first rest hchain => ?_⟩
  · exact (hg.mem_successors hr).mpr (dependsOn_of_dispatch hd)
  · have hnd : (first :: rest).Nodup :=
      nodup_of_isChain (fun n hn => hc ⟨n, chain_of_cascade hn⟩) hchain
    refine ⟨hnd, ?_⟩
    cases rest with
    | nil => exact List.length_pos_iff.mpr hne
    | cons second rest =>
      have hsub := List.subperm_of_subset hnd (mem_jobNames_of_cascade hr hchain)
      have hle := hsub.length_le
      rw [jobNames, List.length_map, List.length_cons] at hle
      exact hle

/-- Three jobs, of which each starts the next one, the last one also if the build failed. -/
def train : Spec :=
  .ofJobs [.waitingFor "build" [],
    { Job.waitingFor "test" ["build"] with triggers := [.dependencyFinished true] },
    { Job.waitingFor "report" ["test"] with triggers := [.dependencyFinished false] }]

theorem cascade_bounded_train :
    train.validate.isValid = true ∧
    ⟨"test", 0, .dependencyFinished true⟩ ∈
      train.dispatch (.buildFinished "build" .successful (some "refs/heads/main")) ∧
    ["build", "test", "report"].IsChain train.Starts ∧
    (∃ g, JobGraph.ofSpec train = .ok g ∧ "test" ∈ g.successors "build") ∧
    ["build", "test", "report"].Nodup ∧ ["test", "report"].length < train.jobs.length := by
  have hv : train.validate.isValid = true :=
    isValid_validate_iff.mpr
      ⟨by decide +kernel, ⟨["build", "test", "report"], [(1, 2), (0, 1)]⟩, by cbv⟩
  have htest : ⟨"test", 0, .dependencyFinished true⟩ ∈
      train.dispatch (.buildFinished "build" .successful (some "refs/heads/main")) := by
    have : train.dispatch (.buildFinished "build" .successful (some "refs/heads/main")) =
        [⟨"test", 0, .dependencyFinished true⟩] := by cbv
    simp [this]
  have hreport : ⟨"report", 0, .dependencyFinished false⟩ ∈
      train.dispatch (.buildFinished "test" .failed none) := by
    have : train.dispatch (.buildFinished "test" .failed none) =
        [⟨"report", 0, .dependencyFinished false⟩] := by cbv
    simp [this]
  have hc : ["build", "test", "report"].IsChain train.Starts :=
    .cons_cons ⟨_, _, _, htest, rfl⟩ (.cons_cons ⟨_, _, _, hreport, rfl⟩ (.singleton _))
  obtain ⟨g, hg, hsucc, hbound⟩ := cascade_bounded hv
  exact ⟨hv, htest, hc, ⟨g, hg, hsucc _ _ _ _ htest⟩, hbound _ _ hc⟩

end Spec

end Pipeline
