import Mathlib.Data.List.Permutation
import Pipeline.Proofs.Graph.Edges
import Pipeline.Proofs.Graph.Search

/-!
# Which specifications can be ordered

* `isForward_candidate_iff`: the order that the search proposes is forward just when no path of
  the graph closes.
* `ofSpec_outcome`: when the jobs of a specification can be ordered, and which error tells why
  they cannot.
* `order_perm`: the order holds every job once, behind all jobs that it depends on.
-/

namespace Pipeline

open Relation

/-- A job of which only the name and the dependencies are told. -/
def Job.waitingFor (name : String) (dependencies : List String) : Job :=
  { Job.ofCommands name "alpine" ["true"] with
    jobDependencies := dependencies.map JobDependency.ofName }

namespace JobGraph

variable {g : JobGraph} {s : Spec}

/-- Edges lead from nodes to nodes. -/
def Bounded (g : JobGraph) : Prop := ∀ a b, g.Edge a b → a ∈ g.nodes ∧ b ∈ g.nodes

theorem Represents.bounded (hg : g.Represents s) : g.Bounded := fun _ _ h => hg.edge_mem_nodes h

theorem nodes_nodup (g : JobGraph) : g.nodes.Nodup := List.nodup_range

@[simp] theorem mem_after {a b : Nat} : b ∈ g.after a ↔ g.Edge a b := by
  simp only [after, Edge, List.mem_filterMap]
  constructor
  · rintro ⟨⟨x, y⟩, hm, h⟩
    simp only [Option.ite_none_right_eq_some, Option.some.injEq] at h
    obtain ⟨rfl, rfl⟩ := h
    exact hm
  · intro h
    exact ⟨(a, b), h, by simp⟩

theorem follows_after : Graph.Follows g.after = g.Edge := by
  funext a b
  exact propext mem_after

theorem follows_after_reverse : Graph.Follows (fun v => (g.after v).reverse) = g.Edge := by
  funext a b
  exact propext (List.mem_reverse.trans mem_after)

theorem Bounded.closed_after (hb : g.Bounded) : Graph.Closed g.after g.nodes :=
  fun v _ w hw => (hb v w (mem_after.mp hw)).2

theorem Bounded.closed_after_reverse (hb : g.Bounded) :
    Graph.Closed (fun v => (g.after v).reverse) g.nodes :=
  fun v hv w hw => hb.closed_after v hv w (List.mem_reverse.mp hw)

/-! ## The proposed order -/

theorem candidate_perm (hb : g.Bounded) : g.candidate.Perm g.nodes :=
  Graph.finished_perm hb.closed_after_reverse g.nodes_nodup

theorem isForward_iff {order : List Nat} :
    g.isForward order = true ↔ ∀ a b, g.Edge a b → order.idxOf a < order.idxOf b := by
  simp only [isForward, List.all_eq_true, decide_eq_true_eq, Prod.forall, Edge]

/-- A path leads forward in a forward order. -/
theorem idxOf_lt_of_path {order : List Nat} {a b : Nat} (h : g.isForward order = true)
    (hp : TransGen g.Edge a b) : order.idxOf a < order.idxOf b := by
  induction hp with
  | single he => exact isForward_iff.mp h _ _ he
  | tail _ he ih => exact Nat.lt_trans ih (isForward_iff.mp h _ _ he)

/-- The proposed order is forward just when no path leads back to where it begins. -/
theorem isForward_candidate_iff (hb : g.Bounded) :
    g.isForward g.candidate = true ↔ ∀ v, ¬ TransGen g.Edge v v := by
  constructor
  · intro h v hv
    exact Nat.lt_irrefl _ (idxOf_lt_of_path h hv)
  · intro h
    have ha : Graph.Acyclic fun v => (g.after v).reverse := by
      unfold Graph.Acyclic
      rwa [follows_after_reverse]
    refine isForward_iff.mpr fun a b he => ?_
    refine Graph.finished_idxOf_lt ha hb.closed_after_reverse (fun _ h => h) g.nodes_nodup ?_ ?_
    · exact (candidate_perm hb).mem_iff.mpr (hb a b he).1
    · exact List.mem_reverse.mpr (mem_after.mpr he)

/-- Ordering fails just when some name depends on itself. -/
theorem order_eq (hg : g.Represents s) (hr : s.Resolved) :
    s.Cyclic ∧ g.order = .error (.cycle g.cycle) ∨
      ¬ s.Cyclic ∧ g.order = .ok (g.candidate.map g.nameOf) := by
  have hf : g.isForward g.candidate = true ↔ ¬ s.Cyclic := by
    rw [isForward_candidate_iff hg.bounded, hg.cyclic_iff hr, not_exists]
  unfold order
  by_cases hc : s.Cyclic
  · exact .inl ⟨hc, if_neg fun h => hf.mp h hc⟩
  · exact .inr ⟨hc, if_pos (hf.mpr hc)⟩

/-! ## The outcome of building -/

/-- The first element of a list that fails a test, unless all pass it. -/
theorem all_or_first_not {α : Type} (p : α → Prop) (l : List α) :
    (∀ x ∈ l, p x) ∨ ∃ before x after, l = before ++ x :: after ∧ (∀ y ∈ before, p y) ∧ ¬ p x := by
  induction l with
  | nil => exact .inl fun _ h => absurd h List.not_mem_nil
  | cons x l ih =>
    by_cases hx : p x
    · rcases ih with h | ⟨before, y, after, rfl, hb, hy⟩
      · exact .inl (List.forall_mem_cons.mpr ⟨hx, h⟩)
      · exact .inr ⟨x :: before, y, after, rfl, List.forall_mem_cons.mpr ⟨hx, hb⟩, hy⟩
    · exact .inr ⟨[], x, l, rfl, fun _ h => absurd h List.not_mem_nil, hx⟩

theorem resolved_or_firstUnknown (s : Spec) :
    s.Resolved ∨ ∃ job dependency, s.FirstUnknown job dependency := by
  rcases all_or_first_not (fun j => ∀ d ∈ j.dependencyNames, d ∈ s.jobNames) s.jobs with
    h | ⟨before, j, after, hs, hb, hj⟩
  · exact .inl h
  · rcases all_or_first_not (· ∈ s.jobNames) j.dependencyNames with h | ⟨known, d, rest, hd⟩
    · exact absurd h hj
    · exact .inr ⟨j.name, d, before, j, after, hs, hb, rfl, known, rest, hd⟩

theorem not_resolved_of_firstUnknown {job dependency : String}
    (h : s.FirstUnknown job dependency) : ¬ s.Resolved := by
  obtain ⟨before, j, after, hs, -, -, known, rest, hd, -, hu⟩ := h
  intro hr
  exact hu (hr j (by simp [hs]) dependency (by simp [hd]))

theorem ofSpec_of_firstUnknown {job dependency : String} (h : s.FirstUnknown job dependency) :
    ofSpec s = .error (.unknownDependency job dependency) := by
  obtain ⟨before, j, after, hs, hb, rfl, known, rest, hd, hk, hu⟩ := h
  have hne : s.jobs.isEmpty = false := by simp [hs]
  have hn : ∀ i ∈ before, i.name ∈ s.jobNames := fun i hi =>
    Spec.name_mem_jobNames (by simp [hs, hi])
  have hj : j.name ∈ s.jobNames := Spec.name_mem_jobNames (by simp [hs])
  have ha : addJobs s.jobNames s.jobs [] = .error (.unknownDependency j.name dependency) := by
    rw [hs]
    exact addJobs_unknown _ hn hb hj hd hk hu
  simp only [ofSpec, hne, ha, Bool.false_eq_true, if_false]

theorem ofSpec_of_resolved (hne : s.jobs ≠ []) (hr : s.Resolved) :
    ∃ g : JobGraph, g.Represents s ∧
      (s.Cyclic ∧ ofSpec s = .error (.cycle g.cycle) ∨ ¬ s.Cyclic ∧ ofSpec s = .ok g) := by
  obtain ⟨edges, he, hg⟩ := exists_represents hr
  have hne : s.jobs.isEmpty = false := by simpa using hne
  refine ⟨_, hg, ?_⟩
  simp only [ofSpec, hne, he, Bool.false_eq_true, if_false]
  rcases order_eq hg hr with ⟨hc, ho⟩ | ⟨hc, ho⟩
  · exact .inl ⟨hc, by rw [ho]⟩
  · exact .inr ⟨hc, by rw [ho]⟩

/-- The outcomes of building a graph, each with what it says about the specification. -/
theorem ofSpec_cases (s : Spec) :
    (s.jobs = [] ∧ ofSpec s = .error .noJobs) ∨
    (∃ job dependency, s.FirstUnknown job dependency ∧
      ofSpec s = .error (.unknownDependency job dependency)) ∨
    (s.jobs ≠ [] ∧ s.Resolved ∧ ∃ g : JobGraph, g.Represents s ∧
      (s.Cyclic ∧ ofSpec s = .error (.cycle g.cycle) ∨ ¬ s.Cyclic ∧ ofSpec s = .ok g)) := by
  by_cases hne : s.jobs = []
  · exact .inl ⟨hne, by simp [ofSpec, hne]⟩
  · rcases resolved_or_firstUnknown s with hr | ⟨job, dependency, hu⟩
    · exact .inr (.inr ⟨hne, hr, ofSpec_of_resolved hne hr⟩)
    · exact .inr (.inl ⟨job, dependency, hu, ofSpec_of_firstUnknown hu⟩)

/-- What holds of a specification whose jobs can be ordered. -/
theorem of_ofSpec_ok (h : ofSpec s = .ok g) :
    s.jobs ≠ [] ∧ s.Resolved ∧ g.Represents s ∧ ¬ s.Cyclic := by
  rcases ofSpec_cases s with ⟨-, he⟩ | ⟨_, _, -, he⟩ | ⟨hne, hr, g', hg, ⟨-, he⟩ | ⟨hc, he⟩⟩
  · cases h.symm.trans he
  · cases h.symm.trans he
  · cases h.symm.trans he
  · cases h.symm.trans he
    exact ⟨hne, hr, hg, hc⟩

/-- What holds of a specification in which a cycle is reported. -/
theorem of_ofSpec_cycle {names : List String} (h : ofSpec s = .error (.cycle names)) :
    s.jobs ≠ [] ∧ s.Resolved ∧ s.Cyclic ∧ ∃ g : JobGraph, g.Represents s ∧ names = g.cycle := by
  rcases ofSpec_cases s with ⟨-, he⟩ | ⟨_, _, -, he⟩ | ⟨hne, hr, g', hg, ⟨hc, he⟩ | ⟨-, he⟩⟩
  · cases h.symm.trans he
  · cases h.symm.trans he
  · cases h.symm.trans he
    exact ⟨hne, hr, hc, g', hg, rfl⟩
  · cases h.symm.trans he

theorem exists_ofSpec_ok_iff :
    (∃ g, ofSpec s = .ok g) ↔ s.jobs ≠ [] ∧ s.Resolved ∧ ¬ s.Cyclic := by
  constructor
  · rintro ⟨g, h⟩
    obtain ⟨hne, hr, -, hc⟩ := of_ofSpec_ok h
    exact ⟨hne, hr, hc⟩
  · rintro ⟨hne, hr, hc⟩
    obtain ⟨g, -, ⟨hcyc, -⟩ | ⟨-, he⟩⟩ := ofSpec_of_resolved hne hr
    · exact absurd hcyc hc
    · exact ⟨g, he⟩

theorem not_resolved_of_ofSpec_unknown {job dependency : String}
    (h : ofSpec s = .error (.unknownDependency job dependency)) : ¬ s.Resolved := by
  rcases ofSpec_cases s with ⟨-, he⟩ | ⟨_, _, hu, -⟩ | ⟨-, -, _, -, ⟨-, he⟩ | ⟨-, he⟩⟩
  · cases h.symm.trans he
  · exact not_resolved_of_firstUnknown hu
  · cases h.symm.trans he
  · cases h.symm.trans he

theorem jobs_eq_nil_of_ofSpec_noJobs (h : ofSpec s = .error .noJobs) : s.jobs = [] := by
  rcases ofSpec_cases s with ⟨hs, -⟩ | ⟨_, _, -, he⟩ | ⟨-, -, _, -, ⟨-, he⟩ | ⟨-, he⟩⟩
  · exact hs
  · cases h.symm.trans he
  · cases h.symm.trans he
  · cases h.symm.trans he

/-- A specification without jobs has no graph; else the first unknown dependency is reported, if
there is one; else a cycle is, just when some name depends on itself. -/
theorem ofSpec_outcome (s : Spec) :
    (ofSpec s = .error .noJobs ↔ s.jobs = []) ∧
    ((∃ job dependency, ofSpec s = .error (.unknownDependency job dependency)) ↔
      ∃ j ∈ s.jobs, ∃ d ∈ j.dependencyNames, d ∉ s.jobNames) ∧
    (∀ job dependency, ofSpec s = .error (.unknownDependency job dependency) ↔
      s.FirstUnknown job dependency) ∧
    ((∃ names, ofSpec s = .error (.cycle names)) ↔ s.jobs ≠ [] ∧ s.Resolved ∧ s.Cyclic) ∧
    ((∃ g, ofSpec s = .ok g) ↔ s.jobs ≠ [] ∧ s.Resolved ∧ ¬ s.Cyclic) := by
  have hun : (∃ j ∈ s.jobs, ∃ d ∈ j.dependencyNames, d ∉ s.jobNames) ↔ ¬ s.Resolved := by
    simp [Spec.Resolved]
  have hfu : ∀ job dependency, s.FirstUnknown job dependency → s.jobs ≠ [] := by
    rintro _ _ ⟨before, j, after, hs, -⟩ h
    simp [hs] at h
  rw [hun]
  rcases ofSpec_cases s with ⟨hs, he⟩ | ⟨job, dependency, hu, he⟩ | ⟨hne, hr, g, -, h⟩
  · have hr : s.Resolved := fun j hj => absurd hj (by simp [hs])
    refine ⟨by simp [he, hs], by simp [he, hr], fun a b => ?_, by simp [he, hs], by simp [he, hs]⟩
    exact ⟨fun h => by simp [he] at h, fun h => absurd hs (hfu a b h)⟩
  · have hr := not_resolved_of_firstUnknown hu
    refine ⟨by simp [he, hfu _ _ hu], by simp [he, hr], fun a b => ?_, by simp [he, hr],
      by simp [he, hr]⟩
    refine ⟨fun h => ?_, ofSpec_of_firstUnknown⟩
    cases he.symm.trans h
    exact hu
  · have hnu : ∀ job dependency, ¬ s.FirstUnknown job dependency := fun _ _ h =>
      not_resolved_of_firstUnknown h hr
    rcases h with ⟨hc, he⟩ | ⟨hc, he⟩
    · exact ⟨by simp [he, hne], by simp [he, hr], by simp [he, hnu], by simp [he, hne, hr, hc],
        by simp [he, hc]⟩
    · exact ⟨by simp [he, hne], by simp [he, hr], by simp [he, hnu], by simp [he, hc],
        by simp [he, hne, hr, hc]⟩

/-! ## The order of the jobs -/

theorem nodes_map_nameOf (g : JobGraph) : g.nodes.map g.nameOf = g.names := by
  refine List.ext_getElem (by simp [nodes]) fun i h₁ h₂ => ?_
  simp [nodes, nameOf, h₂]

theorem idxOf_map_of_nodup {α β : Type} [DecidableEq α] [DecidableEq β] {f : α → β} {l : List α}
    {a : α} (hd : (l.map f).Nodup) (ha : a ∈ l) : (l.map f).idxOf (f a) = l.idxOf a := by
  induction l with
  | nil => cases ha
  | cons x l ih =>
    rw [List.map_cons, List.nodup_cons] at hd
    by_cases hx : x = a
    · subst hx
      simp
    · have ha : a ∈ l := (List.mem_cons.mp ha).resolve_left fun e => hx e.symm
      have hf : f x ≠ f a := fun e => hd.1 (e ▸ List.mem_map_of_mem ha)
      rw [List.map_cons, List.idxOf_cons_ne _ hf, List.idxOf_cons_ne _ hx, ih hd.2 ha]

/-- Jobs of different names are ordered so that each stands once, and behind all jobs that it
depends on. -/
theorem order_perm (hd : s.jobNames.Nodup) (h : ofSpec s = .ok g) :
    ∃ names, g.order = .ok names ∧ names.Perm s.jobNames ∧
      ∀ j ∈ s.jobs, ∀ d ∈ j.dependencyNames, names.idxOf d < names.idxOf j.name := by
  obtain ⟨-, hr, hg, hc⟩ := of_ofSpec_ok h
  obtain ⟨-, ho⟩ := (order_eq hg hr).resolve_left fun hcyc => hc hcyc.1
  have hp : (g.candidate.map g.nameOf).Perm s.jobNames := by
    have := (candidate_perm hg.bounded).map g.nameOf
    rwa [nodes_map_nameOf, hg.names] at this
  have hf : g.isForward g.candidate = true := by
    rw [isForward_candidate_iff hg.bounded, ← not_exists, ← hg.cyclic_iff hr]
    exact hc
  refine ⟨_, ho, hp, fun j hj d hdep => ?_⟩
  obtain ⟨a, b, ha, hb, he⟩ := hg.exists_edge hr ⟨j, hj, rfl, hdep⟩
  rw [← hg.names] at ha hb
  have hmem : ∀ v ∈ g.nodes, v ∈ g.candidate := fun v => (candidate_perm hg.bounded).mem_iff.mpr
  have hnd := hp.nodup_iff.mpr hd
  rw [← nameOf_of_position? ha, ← nameOf_of_position? hb,
    idxOf_map_of_nodup hnd (hmem a (hg.edge_mem_nodes he).1),
    idxOf_map_of_nodup hnd (hmem b (hg.edge_mem_nodes he).2)]
  exact isForward_iff.mp hf a b he

/-- Two jobs that wait for a third one and for which a fourth one waits, the last one first. -/
def diamond : Spec :=
  Spec.ofJobs [.waitingFor "deploy" ["unit", "lint", "unit"], .waitingFor "unit" ["build"],
    .waitingFor "lint" ["build"], .waitingFor "build" []]

/-- The graph of `diamond`. -/
def diamondGraph : JobGraph :=
  ⟨["deploy", "unit", "lint", "build"], [(3, 2), (3, 1), (2, 0), (1, 0)]⟩

theorem order_perm_diamond :
    diamond.jobNames.Nodup ∧ ofSpec diamond = .ok diamondGraph ∧
    ∃ names, diamondGraph.order = .ok names ∧ names.Perm diamond.jobNames ∧
      ∀ j ∈ diamond.jobs, ∀ d ∈ j.dependencyNames, names.idxOf d < names.idxOf j.name := by
  have hd : diamond.jobNames.Nodup := by decide
  have h : ofSpec diamond = .ok diamondGraph := by cbv
  exact ⟨hd, h, order_perm hd h⟩

end JobGraph

end Pipeline
