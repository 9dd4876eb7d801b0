import Pipeline.Proofs.Graph.Neighbours

/-!
# Running the jobs one after the other

A scheduler starts any job that is ready and goes on when it is completed. Such a run can take
many courses; in a graph that was built from a specification none of them gets stuck.

* `JobGraph.IsRun`: the courses of a run, as far as it has come.
* `JobGraph.isReady_mono`, `IsRun.concat`: what is ready stays ready, and can be run next.
* `JobGraph.isRun_candidate`: the order that is proposed for the jobs is a run.
* `JobGraph.exists_ready`: a run that has not come to its end can go on.
* `JobGraph.run_laws`: these, and that the complete runs are the orders that keep the dependencies.
-/

namespace Pipeline

/-- In a list without repetition, what stands before an element has the smaller position. -/
theorem idxOf_lt_idxOf_iff_mem {α : Type} [DecidableEq α] {before after : List α} {x y : α}
    (hd : (before ++ x :: after).Nodup) :
    (before ++ x :: after).idxOf y < (before ++ x :: after).idxOf x ↔ y ∈ before := by
  have hx : x ∉ before := fun h => List.disjoint_of_nodup_append hd h List.mem_cons_self
  rw [List.idxOf_append_of_notMem hx, List.idxOf_cons_self, Nat.add_zero]
  constructor
  · intro h
    by_contra hy
    rw [List.idxOf_append_of_notMem hy] at h
    exact absurd h (Nat.not_lt.mpr (Nat.le_add_right _ _))
  · intro hy
    rw [List.idxOf_append_of_mem hy]
    exact List.idxOf_lt_length_of_mem hy

namespace JobGraph

variable {g : JobGraph} {s : Spec} {run : List String} {n : String}

/-- Jobs in the order in which they are run: none is run twice, and each is ready when those
before it are completed. -/
structure IsRun (g : JobGraph) (run : List String) : Prop where
  nodup : run.Nodup
  jobs : ∀ n ∈ run, n ∈ g.names
  ready : ∀ before n after, run = before ++ n :: after → g.isReady n before = true

/-! ## Steps of a run -/

/-- What is ready stays ready when more jobs are completed. -/
theorem isReady_mono {completed completed' : List String} (hs : completed ⊆ completed')
    (h : g.isReady n completed = true) : g.isReady n completed' = true := by
  simp only [isReady, List.all_eq_true, List.contains_iff_mem] at h ⊢
  exact fun p hp => hs (h p hp)

/-- A run goes on with any job that is ready and was not run yet. -/
theorem IsRun.concat (h : g.IsRun run) (hn : n ∈ g.names) (hr : n ∉ run)
    (hready : g.isReady n run = true) : g.IsRun (run ++ [n]) where
  nodup := by simpa [List.nodup_append] using ⟨h.nodup, fun m hm e => hr (e ▸ hm)⟩
  jobs := by
    intro m hm
    rcases List.mem_append.mp hm with hm | hm
    · exact h.jobs m hm
    · exact List.mem_singleton.mp hm ▸ hn
  ready := by
    intro before m after he
    -- The last job of the list is the new one; every other one has the same jobs before it.
    rcases List.eq_nil_or_concat after with rfl | ⟨rest, last, rfl⟩
    · obtain ⟨rfl, hlast⟩ := List.append_inj' he rfl
      obtain rfl : n = m := (List.cons.inj hlast).1
      exact hready
    · refine h.ready before m rest ?_
      have he : run ++ [n] = (before ++ m :: rest) ++ [last] := by simpa using he
      exact (List.append_inj' he rfl).1

/-! ## Complete runs -/

section Complete

variable (hg : g.Represents s) (hr : s.Resolved)
include hg hr

/-- A sequence of all jobs is a run just when every job stands behind all that it depends on. -/
theorem isRun_iff_idxOf_lt (hd : s.jobNames.Nodup) (hp : run.Perm s.jobNames) :
    g.IsRun run ↔ ∀ n d, s.DependsOn n d → run.idxOf d < run.idxOf n := by
  have hnd : run.Nodup := hp.nodup_iff.mpr hd
  constructor
  · intro h n d hdep
    obtain ⟨j, hj, rfl, -⟩ := id hdep
    obtain ⟨before, after, rfl⟩ := List.append_of_mem (hp.mem_iff.mpr (Spec.name_mem_jobNames hj))
    exact (idxOf_lt_idxOf_iff_mem hnd).mpr
      ((hg.isReady_iff hr).mp (h.ready before _ after rfl) d hdep)
  · intro h
    refine ⟨hnd, fun n hn => hg.names ▸ hp.mem_iff.mp hn, ?_⟩
    rintro before n after rfl
    exact (hg.isReady_iff hr).mpr fun d hdep => (idxOf_lt_idxOf_iff_mem hnd).mp (h n d hdep)

/-- The jobs can be run in the order that is proposed. -/
theorem isRun_candidate (hd : s.jobNames.Nodup) (hc : ¬ s.Cyclic) :
    (g.candidate.map g.nameOf).Perm s.jobNames ∧ g.IsRun (g.candidate.map g.nameOf) := by
  have hb := hg.bounded
  have hp : (g.candidate.map g.nameOf).Perm s.jobNames := by
    rw [← hg.names, ← nodes_map_nameOf]
    exact (candidate_perm hb).map g.nameOf
  have hf : g.isForward g.candidate = true := by
    rw [isForward_candidate_iff hb, ← not_exists, ← hg.cyclic_iff hr]
    exact hc
  refine ⟨hp, hp.nodup_iff.mpr hd, fun n hn => hg.names ▸ hp.mem_iff.mp hn, ?_⟩
  intro before n after he
  -- The names before `n` are those of the positions before the one of `n`, to which edges lead from
  -- there only.
  obtain ⟨front, back, hcand, rfl, hback⟩ := List.map_eq_append_iff.mp he
  obtain ⟨v, back, rfl, rfl, rfl⟩ := List.map_eq_cons_iff.mp hback
  refine (hg.isReady_iff hr).mpr fun d hdep => ?_
  obtain ⟨a, b, ha, hbv, hedge⟩ := (hg.dependsOn_iff hr).mp hdep
  have hv : v ∈ g.nodes := (candidate_perm hb).mem_iff.mp (by simp [hcand])
  obtain rfl : v = b :=
    Option.some.inj ((position?_nameOf_of_nodup (hg.names ▸ hd) hv).symm.trans hbv)
  have hnd : (front ++ v :: back).Nodup := hcand ▸ (candidate_perm hb).nodup_iff.mpr g.nodes_nodup
  have hmem : a ∈ front := (idxOf_lt_idxOf_iff_mem hnd).mp (hcand ▸ isForward_iff.mp hf a v hedge)
  exact List.mem_map.mpr ⟨a, hmem, nameOf_of_position? ha⟩

/-- A run that some job is missing from can go on: the first job that is missing, in the order of
the jobs, depends only on such that were run. -/
theorem exists_ready (hd : s.jobNames.Nodup) (hc : ¬ s.Cyclic) (hn : n ∈ s.jobNames)
    (hrun : n ∉ run) : ∃ m ∈ s.jobNames, m ∉ run ∧ g.isReady m run = true := by
  obtain ⟨hp, hc⟩ := isRun_candidate hg hr hd hc
  rcases all_or_first_not (· ∈ run) (g.candidate.map g.nameOf) with
    hall | ⟨before, m, after, he, hb, hm⟩
  · exact absurd (hall n (hp.mem_iff.mpr hn)) hrun
  · have hmem : m ∈ s.jobNames := hp.mem_iff.mp (by simp [he])
    exact ⟨m, hmem, hm, isReady_mono hb (hc.ready before m after he)⟩

end Complete

/-- When the jobs of a specification have different names and can be ordered: their order is a
run, every run can go on until all jobs were run, the complete runs are the sequences in which
each job stands behind all that it depends on, and what is ready stays ready. -/
theorem run_laws (hd : s.jobNames.Nodup) (h : ofSpec s = .ok g) :
    (∃ names, g.order = .ok names ∧ names.Perm s.jobNames ∧ g.IsRun names) ∧
    (∀ run, g.IsRun run → (∃ n ∈ s.jobNames, n ∉ run) →
      ∃ m ∈ s.jobNames, m ∉ run ∧ g.IsRun (run ++ [m])) ∧
    (∀ names, names.Perm s.jobNames → (g.IsRun names ↔
      ∀ j ∈ s.jobs, ∀ d ∈ j.dependencyNames, names.idxOf d < names.idxOf j.name)) ∧
    (∀ n completed completed', completed ⊆ completed' →
      g.isReady n completed = true → g.isReady n completed' = true) := by
  obtain ⟨-, hr, hg, hc⟩ := of_ofSpec_ok h
  obtain ⟨-, ho⟩ := (order_eq hg hr).resolve_left fun hcyc => hc hcyc.1
  refine ⟨⟨_, ho, isRun_candidate hg hr hd hc⟩, ?_, ?_, fun _ _ _ => isReady_mono⟩
  · rintro run hrun ⟨n, hn, hnrun⟩
    obtain ⟨m, hm, hmrun, hready⟩ := exists_ready hg hr hd hc hn hnrun
    exact ⟨m, hm, hmrun, hrun.concat (hg.names ▸ hm) hmrun hready⟩
  · intro names hp
    rw [isRun_iff_idxOf_lt hg hr hd hp]
    constructor
    · intro hidx j hj d hdep
      exact hidx j.name d ⟨j, hj, rfl, hdep⟩
    · rintro hidx n d ⟨j, hj, rfl, hdep⟩
      exact hidx j hj d hdep

theorem run_laws_diamond :
    diamond.jobNames.Nodup ∧ ofSpec diamond = .ok diamondGraph ∧
    (∃ names, diamondGraph.order = .ok names ∧ names.Perm diamond.jobNames ∧
      diamondGraph.IsRun names) ∧
    (∀ run, diamondGraph.IsRun run → (∃ n ∈ diamond.jobNames, n ∉ run) →
      ∃ m ∈ diamond.jobNames, m ∉ run ∧ diamondGraph.IsRun (run ++ [m])) ∧
    (∀ names, names.Perm diamond.jobNames → (diamondGraph.IsRun names ↔
      ∀ j ∈ diamond.jobs, ∀ d ∈ j.dependencyNames, names.idxOf d < names.idxOf j.name)) ∧
    (∀ n completed completed', completed ⊆ completed' →
      diamondGraph.isReady n completed = true → diamondGraph.isReady n completed' = true) := by
  have hd : diamond.jobNames.Nodup := by decide
  have h : ofSpec diamond = .ok diamondGraph := by cbv
  exact ⟨hd, h, run_laws hd h⟩

end JobGraph

end Pipeline
