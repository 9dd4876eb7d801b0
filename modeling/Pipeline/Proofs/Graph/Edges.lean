import Mathlib.Data.List.Basic
import Mathlib.Logic.Relation
import Mathlib.Tactic.Tauto
import Pipeline.Graph

/-!
# The graph that stands for a specification

A specification says by names which job depends on which; the graph says so by positions. The
edges that building adds are exactly the declared dependencies (`addJobs_ok`), and building
fails at the first dependency that no job is named by (`addJobs_unknown`). Paths of the graph
are chains of dependencies, read backwards (`Represents.chain_of_path`,
`Represents.path_of_chain`).
-/

namespace Pipeline

open Relation

namespace Spec

/-- Some job of the first name lists the second name as a dependency. -/
def DependsOn (s : Spec) (name dependency : String) : Prop :=
  ∃ j ∈ s.jobs, j.name = name ∧ dependency ∈ j.dependencyNames

/-- Every dependency is the name of a job. -/
def Resolved (s : Spec) : Prop := ∀ j ∈ s.jobs, ∀ d ∈ j.dependencyNames, d ∈ s.jobNames

/-- Some name depends on itself, directly or through others. -/
def Cyclic (s : Spec) : Prop := ∃ n, TransGen s.DependsOn n n

/-- `dependency` is the first dependency that is no job's name, in the order of the jobs and of
the dependencies of each, and `job` is the name of the job that lists it. -/
def FirstUnknown (s : Spec) (job dependency : String) : Prop :=
  ∃ before j after, s.jobs = before ++ j :: after ∧
    (∀ i ∈ before, ∀ d ∈ i.dependencyNames, d ∈ s.jobNames) ∧ j.name = job ∧
    ∃ known rest, j.dependencyNames = known ++ dependency :: rest ∧
      (∀ d ∈ known, d ∈ s.jobNames) ∧ dependency ∉ s.jobNames

theorem name_mem_jobNames {s : Spec} {j : Job} (h : j ∈ s.jobs) : j.name ∈ s.jobNames :=
  List.mem_map_of_mem h

/-- Only jobs depend on anything. -/
theorem mem_jobNames_of_chain {s : Spec} {n d : String} (h : TransGen s.DependsOn n d) :
    n ∈ s.jobNames := by
  obtain ⟨_, ⟨j, hj, rfl, -⟩, -⟩ := TransGen.head'_iff.mp h
  exact name_mem_jobNames hj

end Spec

namespace JobGraph

/-! ## Positions -/

section Positions

variable {names : List String} {n : String} {v : Nat}

theorem getElem?_of_position? (h : position? names n = some v) : names[v]? = some n := by
  unfold position? at h
  obtain ⟨⟨m, w⟩, hl, rfl⟩ := Option.map_eq_some_iff.mp h
  have hm := List.mem_filter.mp (List.mem_of_getLast? hl)
  simp only [beq_iff_eq] at hm
  obtain ⟨hz, rfl⟩ := hm
  exact List.mem_zipIdx_iff_getElem?.mp hz

theorem exists_position? (h : n ∈ names) : ∃ v, position? names n = some v := by
  cases hp : position? names n with
  | some v => exact ⟨v, rfl⟩
  | none =>
    obtain ⟨w, hw⟩ := List.mem_iff_getElem?.mp h
    unfold position? at hp
    rw [Option.map_eq_none_iff, List.getLast?_eq_none_iff, List.filter_eq_nil_iff] at hp
    have := hp (n, w) (List.mem_zipIdx_iff_getElem?.mpr hw)
    simp at this

theorem position?_eq_none (h : n ∉ names) : position? names n = none := by
  cases hp : position? names n with
  | none => rfl
  | some v => exact absurd (List.mem_of_getElem? (getElem?_of_position? hp)) h

end Positions

/-! ## Building -/

section Building

variable {names known rest : List String} {job d : String} (edges : List (Nat × Nat))

theorem mem_addEdge (a b : Nat) (e : Nat × Nat) :
    e ∈ addEdge edges a b ↔ e ∈ edges ∨ e = (a, b) := by
  unfold addEdge
  split
  · rename_i h
    exact ⟨.inl, fun he => he.elim id fun e => e ▸ h⟩
  · rw [List.mem_cons, or_comm]

/-- Known dependencies are added as edges to the job, and nothing else is. -/
theorem addDependencies_ok (hj : job ∈ names) (hd : ∀ d ∈ known, d ∈ names) :
    ∃ edges', addDependencies names job known edges = .ok edges' ∧ ∀ e, e ∈ edges' ↔
      e ∈ edges ∨ ∃ d ∈ known, position? names d = some e.1 ∧ position? names job = some e.2 := by
  obtain ⟨b, hb⟩ := exists_position? hj
  induction known generalizing edges with
  | nil => exact ⟨edges, rfl, by simp⟩
  | cons d ds ih =>
    obtain ⟨hd, hds⟩ := List.forall_mem_cons.mp hd
    obtain ⟨a, ha⟩ := exists_position? hd
    obtain ⟨edges', he, hm⟩ := ih (addEdge edges a b) hds
    refine ⟨edges', ?_, fun e => ?_⟩
    · simp only [addDependencies, ha, hb, he]
    · have hab : e = (a, b) ↔ position? names d = some e.1 ∧ position? names job = some e.2 := by
        rw [ha, hb, Option.some_inj, Option.some_inj, Prod.ext_iff, eq_comm (a := a),
          eq_comm (a := b)]
      rw [hm, mem_addEdge, hab, List.exists_mem_cons_iff]
      tauto

theorem addDependencies_unknown (hj : job ∈ names) (hk : ∀ d ∈ known, d ∈ names)
    (hd : d ∉ names) :
    addDependencies names job (known ++ d :: rest) edges = .error (.unknownDependency job d) := by
  obtain ⟨b, hb⟩ := exists_position? hj
  induction known generalizing edges with
  | nil => simp only [List.nil_append, addDependencies, position?_eq_none hd]
  | cons k ks ih =>
    obtain ⟨hk, hks⟩ := List.forall_mem_cons.mp hk
    obtain ⟨a, ha⟩ := exists_position? hk
    simp only [List.cons_append, addDependencies, ha, hb]
    exact ih _ hks

variable {js after : List Job} {j : Job}

/-- The edges that jobs with known dependencies add are their dependencies. -/
theorem addJobs_ok (hj : ∀ j ∈ js, j.name ∈ names)
    (hd : ∀ j ∈ js, ∀ d ∈ j.dependencyNames, d ∈ names) :
    ∃ edges', addJobs names js edges = .ok edges' ∧ ∀ e, e ∈ edges' ↔
      e ∈ edges ∨ ∃ j ∈ js, ∃ d ∈ j.dependencyNames,
        position? names d = some e.1 ∧ position? names j.name = some e.2 := by
  induction js generalizing edges with
  | nil => exact ⟨edges, rfl, by simp⟩
  | cons j js ih =>
    obtain ⟨hj, hjs⟩ := List.forall_mem_cons.mp hj
    obtain ⟨hd, hds⟩ := List.forall_mem_cons.mp hd
    obtain ⟨edges₁, h₁, hm₁⟩ := addDependencies_ok edges hj hd
    obtain ⟨edges₂, h₂, hm₂⟩ := ih edges₁ hjs hds
    refine ⟨edges₂, ?_, fun e => ?_⟩
    · simp only [addJobs, h₁, h₂]
    · rw [hm₂, hm₁, List.exists_mem_cons_iff, or_assoc]

theorem addJobs_unknown (hj : ∀ j ∈ js, j.name ∈ names)
    (hk : ∀ j ∈ js, ∀ d ∈ j.dependencyNames, d ∈ names)
    (hn : j.name ∈ names) (hdeps : j.dependencyNames = known ++ d :: rest)
    (hks : ∀ d ∈ known, d ∈ names) (hd : d ∉ names) :
    addJobs names (js ++ j :: after) edges = .error (.unknownDependency j.name d) := by
  induction js generalizing edges with
  | nil =>
    simp only [List.nil_append, addJobs, hdeps, addDependencies_unknown _ hn hks hd]
  | cons i is ih =>
    obtain ⟨hj, hjs⟩ := List.forall_mem_cons.mp hj
    obtain ⟨hk, hks⟩ := List.forall_mem_cons.mp hk
    obtain ⟨edges₁, h₁, -⟩ := addDependencies_ok edges hj hk
    simp only [List.cons_append, addJobs, h₁]
    exact ih _ hjs hks

end Building

/-! ## Paths and chains of dependencies -/

/-- An edge leads from a position to another. -/
def Edge (g : JobGraph) (a b : Nat) : Prop := (a, b) ∈ g.edges

/-- The graph has the jobs of a specification as its nodes and their dependencies as its
edges. -/
structure Represents (g : JobGraph) (s : Spec) : Prop where
  names : g.names = s.jobNames
  edge : ∀ a b, g.Edge a b ↔ ∃ n d, s.DependsOn n d ∧
    position? s.jobNames d = some a ∧ position? s.jobNames n = some b

theorem nameOf_of_position? {g : JobGraph} {n : String} {v : Nat}
    (h : position? g.names n = some v) : g.nameOf v = n := by
  simp [nameOf, getElem?_of_position? h]

theorem mem_nodes_of_position? {g : JobGraph} {n : String} {v : Nat}
    (h : position? g.names n = some v) : v ∈ g.nodes := by
  obtain ⟨hv, -⟩ := List.getElem?_eq_some_iff.mp (getElem?_of_position? h)
  exact List.mem_range.mpr hv

/-- A specification whose dependencies are all known is represented by the edges that building
adds. -/
theorem exists_represents {s : Spec} (h : s.Resolved) :
    ∃ edges, addJobs s.jobNames s.jobs [] = .ok edges ∧ Represents ⟨s.jobNames, edges⟩ s := by
  obtain ⟨edges, he, hm⟩ := addJobs_ok [] (fun _ hj => Spec.name_mem_jobNames hj) h
  refine ⟨edges, he, rfl, fun a b => ?_⟩
  unfold Edge
  rw [hm]
  constructor
  · rintro (h | ⟨j, hj, d, hd, ha, hb⟩)
    · cases h
    · exact ⟨j.name, d, ⟨j, hj, rfl, hd⟩, ha, hb⟩
  · rintro ⟨_, d, ⟨j, hj, rfl, hd⟩, ha, hb⟩
    exact .inr ⟨j, hj, d, hd, ha, hb⟩

namespace Represents

variable {g : JobGraph} {s : Spec} (hg : g.Represents s)
include hg

theorem edge_mem_nodes {a b : Nat} (h : g.Edge a b) : a ∈ g.nodes ∧ b ∈ g.nodes := by
  obtain ⟨n, d, -, ha, hb⟩ := (hg.edge a b).mp h
  rw [← hg.names] at ha hb
  exact ⟨mem_nodes_of_position? ha, mem_nodes_of_position? hb⟩

theorem position?_nameOf {a b : Nat} (h : g.Edge a b) :
    position? s.jobNames (g.nameOf a) = some a ∧ position? s.jobNames (g.nameOf b) = some b := by
  obtain ⟨n, d, -, ha, hb⟩ := (hg.edge a b).mp h
  rw [← hg.names] at ha hb ⊢
  exact ⟨by rw [nameOf_of_position? ha, ha], by rw [nameOf_of_position? hb, hb]⟩

theorem dependsOn_of_edge {a b : Nat} (h : g.Edge a b) :
    s.DependsOn (g.nameOf b) (g.nameOf a) := by
  obtain ⟨n, d, hd, ha, hb⟩ := (hg.edge a b).mp h
  rw [← hg.names] at ha hb
  rwa [nameOf_of_position? ha, nameOf_of_position? hb]

/-- Along a path of the graph, each job depends on the one where the path begins. -/
theorem chain_of_path {a b : Nat} (h : TransGen g.Edge a b) :
    TransGen s.DependsOn (g.nameOf b) (g.nameOf a) := by
  induction h with
  | single h => exact .single (hg.dependsOn_of_edge h)
  | tail _ h ih => exact .head (hg.dependsOn_of_edge h) ih

theorem exists_edge (hr : s.Resolved) {n d : String} (h : s.DependsOn n d) :
    ∃ a b, position? s.jobNames d = some a ∧ position? s.jobNames n = some b ∧ g.Edge a b := by
  obtain ⟨j, hj, rfl, hd⟩ := h
  obtain ⟨a, ha⟩ := exists_position? (hr j hj d hd)
  obtain ⟨b, hb⟩ := exists_position? (Spec.name_mem_jobNames hj)
  exact ⟨a, b, ha, hb, (hg.edge a b).mpr ⟨j.name, d, ⟨j, hj, rfl, hd⟩, ha, hb⟩⟩

/-- A chain of dependencies is a path of the graph. -/
theorem path_of_chain (hr : s.Resolved) {n d : String} (h : TransGen s.DependsOn n d) :
    ∃ a b, position? s.jobNames d = some a ∧ position? s.jobNames n = some b ∧
      TransGen g.Edge a b := by
  induction h with
  | single h =>
    obtain ⟨a, b, ha, hb, he⟩ := hg.exists_edge hr h
    exact ⟨a, b, ha, hb, .single he⟩
  | tail _ h ih =>
    obtain ⟨a, b, ha, hb, hp⟩ := ih
    obtain ⟨a', b', ha', hb', he⟩ := hg.exists_edge hr h
    obtain rfl : b' = a := Option.some.inj (hb'.symm.trans ha)
    exact ⟨a', b, ha', hb, .head he hp⟩

/-- The graph has a cycle just when some name depends on itself. -/
theorem cyclic_iff (hr : s.Resolved) : s.Cyclic ↔ ∃ v, TransGen g.Edge v v := by
  constructor
  · rintro ⟨n, hn⟩
    obtain ⟨a, b, ha, hb, hp⟩ := hg.path_of_chain hr hn
    obtain rfl : a = b := Option.some.inj (ha.symm.trans hb)
    exact ⟨a, hp⟩
  · rintro ⟨v, hv⟩
    exact ⟨g.nameOf v, hg.chain_of_path hv⟩

end Represents

end JobGraph

end Pipeline
