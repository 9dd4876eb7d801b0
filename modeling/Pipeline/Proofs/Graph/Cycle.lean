import Mathlib.Data.Finset.Max
import Pipeline.Proofs.Graph.Order

/-!
# What is reported as a cycle

Building tells that there is a cycle by one search and names one by others: a table of what can
be reached from each node, and the order in which a third search finishes the nodes. They agree:

* `mem_component`: a component holds the nodes on closed paths through a given one.
* `firstCycle_eq`: if the graph has a closed path, the reported nodes are the component of a node
  on one. Any component that is not empty has a node that is finished last, so one is found.
* `cycle_component`: the reported names are a strongly connected component of the dependencies,
  in ascending order.
-/

namespace Pipeline

open Relation

namespace JobGraph

variable {g : JobGraph} {s : Spec}

/-! ## Components -/

theorem mem_reachable (hb : g.Bounded) {u v : Nat} :
    u ∈ g.reachable v ↔ TransGen g.Edge v u := by
  have hs : ∀ w ∈ g.after v, w ∈ g.nodes := fun w hw => (hb v w (mem_after.mp hw)).2
  rw [reachable, Graph.mem_finished_iff hs hb.closed_after, follows_after, TransGen.head'_iff]
  simp only [mem_after]

theorem mem_targets (hb : g.Bounded) {u v : Nat} :
    u ∈ g.reach.targets v ↔ TransGen g.Edge v u := by
  by_cases hv : v ∈ g.nodes
  · have hl := List.mem_range.mp hv
    have : g.reach.targets v = g.reachable v := by
      simp [Reach.targets, reach, nodes, hl]
    rw [this, mem_reachable hb]
  · have hl : ¬ v < g.names.length := fun h => hv (List.mem_range.mpr h)
    have : g.reach.targets v = [] := by
      simp [Reach.targets, reach, nodes, Nat.le_of_not_lt hl]
    rw [this]
    refine ⟨fun h => absurd h List.not_mem_nil, fun h => ?_⟩
    obtain ⟨w, he, -⟩ := TransGen.head'_iff.mp h
    exact absurd (hb v w he).1 hv

theorem mem_component (hb : g.Bounded) {u v : Nat} :
    u ∈ g.reach.component v ↔ TransGen g.Edge v u ∧ TransGen g.Edge u v := by
  simp only [Reach.component, List.mem_filter, List.contains_iff_mem, mem_targets hb]

theorem component_nodup (hb : g.Bounded) (v : Nat) : (g.reach.component v).Nodup := by
  refine List.Nodup.filter _ ?_
  unfold Reach.targets reach
  cases h : (g.nodes.map g.reachable)[v]? with
  | none => exact List.nodup_nil
  | some us =>
    obtain ⟨w, -, rfl⟩ := List.mem_map.mp (List.mem_of_getElem? h)
    exact Graph.finished_nodup (fun u hu => (hb w u (mem_after.mp hu)).2) hb.closed_after
      g.nodes_nodup

theorem finishOrder_perm (hb : g.Bounded) : g.finishOrder.Perm g.nodes :=
  (List.reverse_perm _).trans (Graph.finished_perm hb.closed_after g.nodes_nodup)

/-- Among the nodes of a component one is finished last. -/
theorem exists_last (hb : g.Bounded) {v : Nat} (hv : TransGen g.Edge v v) :
    ∃ m ∈ g.finishOrder, m ∈ g.reach.component m ∧
      ∀ u ∈ g.reach.component m, g.finishOrder.idxOf u ≤ g.finishOrder.idxOf m := by
  obtain ⟨m, hm, hmax⟩ := Finset.exists_max_image (g.reach.component v).toFinset
    (fun u => g.finishOrder.idxOf u) ⟨v, List.mem_toFinset.mpr ((mem_component hb).mpr ⟨hv, hv⟩)⟩
  obtain ⟨hvm, hmv⟩ := (mem_component hb).mp (List.mem_toFinset.mp hm)
  obtain ⟨w, he, -⟩ := TransGen.head'_iff.mp hmv
  refine ⟨m, (finishOrder_perm hb).mem_iff.mpr (hb m w he).1,
    (mem_component hb).mpr ⟨hmv.trans hvm, hmv.trans hvm⟩, fun u hu => ?_⟩
  obtain ⟨hmu, hum⟩ := (mem_component hb).mp hu
  refine hmax u (List.mem_toFinset.mpr ((mem_component hb).mpr ⟨?_, ?_⟩))
  · exact hvm.trans hmu
  · exact hum.trans hmv

/-- If some path is closed, the component of a node on a closed path is reported. -/
theorem firstCycle_eq (hb : g.Bounded) (hc : ∃ v, TransGen g.Edge v v) :
    ∃ v, TransGen g.Edge v v ∧ g.firstCycle = g.reach.component v := by
  unfold firstCycle
  simp only []
  split
  · rename_i v hf
    have hp := List.find?_some hf
    simp only [Bool.and_eq_true, Bool.not_eq_true', List.isEmpty_eq_false_iff_exists_mem] at hp
    obtain ⟨⟨u, hu⟩, -⟩ := hp
    obtain ⟨hvu, huv⟩ := (mem_component hb).mp hu
    exact ⟨v, hvu.trans huv, rfl⟩
  · rename_i hf
    obtain ⟨v, hv⟩ := hc
    obtain ⟨m, hm, hmm, hlast⟩ := exists_last hb hv
    have := List.find?_eq_none.mp hf m hm
    refine absurd ?_ this
    simp only [Bool.and_eq_true, Bool.not_eq_true', List.isEmpty_eq_false_iff_exists_mem,
      List.all_eq_true, decide_eq_true_eq]
    exact ⟨⟨m, hmm⟩, hlast⟩

/-! ## The reported names -/

theorem mem_cycle {n : String} : n ∈ g.cycle ↔ ∃ u ∈ g.firstCycle, g.nameOf u = n := by
  rw [cycle, List.mem_mergeSort, List.mem_map]

/-- Names in ascending order, none of which is repeated, ascend strictly. -/
theorem mergeSort_pairwise_lt {names : List String} (hd : names.Nodup) :
    (names.mergeSort fun a b => decide (a ≤ b)).Pairwise (· < ·) := by
  have hs : (names.mergeSort fun a b => decide (a ≤ b)).Pairwise fun a b => decide (a ≤ b) = true :=
    List.pairwise_mergeSort
      (fun a b c hab hbc => by simp only [decide_eq_true_eq] at *; exact String.le_trans hab hbc)
      (fun a b => by simpa using String.le_total a b) names
  have hn := (List.mergeSort_perm names fun a b => decide (a ≤ b)).nodup_iff.mpr hd
  exact (hs.and hn).imp fun h => Std.lt_of_le_of_ne (by simpa using h.1) h.2

/-- Nodes with edges have names of their own. -/
theorem Represents.map_nameOf_nodup (hg : g.Represents s) {us : List Nat} (hd : us.Nodup)
    (he : ∀ u ∈ us, ∃ w, g.Edge u w) : (us.map g.nameOf).Nodup := by
  refine hd.map_on fun u hu v hv h => ?_
  obtain ⟨w, hw⟩ := he u hu
  obtain ⟨w', hw'⟩ := he v hv
  have hpu := (hg.position?_nameOf hw).1
  rw [h, (hg.position?_nameOf hw').1] at hpu
  exact (Option.some.inj hpu).symm

theorem cycle_pairwise_lt (hg : g.Represents s) {v : Nat}
    (hf : g.firstCycle = g.reach.component v) : g.cycle.Pairwise (· < ·) := by
  have hb := hg.bounded
  refine mergeSort_pairwise_lt (hg.map_nameOf_nodup (hf ▸ component_nodup hb v) fun u hu => ?_)
  rw [hf, mem_component hb] at hu
  obtain ⟨w, he, -⟩ := TransGen.head'_iff.mp hu.2
  exact ⟨w, he⟩

/-- The position of a name that a job depends on, and that depends on it, is in its component. -/
theorem mem_component_of_chain (hg : g.Represents s) (hr : s.Resolved) {n : String} {u u' v : Nat}
    (hu : u ∈ g.reach.component v) (hu' : u' ∈ g.reach.component v)
    (h : TransGen s.DependsOn n (g.nameOf u)) (h' : TransGen s.DependsOn (g.nameOf u') n) :
    ∃ w ∈ g.reach.component v, g.nameOf w = n := by
  have hb := hg.bounded
  obtain ⟨hvu, huv⟩ := (mem_component hb).mp hu
  obtain ⟨hvu', huv'⟩ := (mem_component hb).mp hu'
  obtain ⟨x, he, -⟩ := TransGen.head'_iff.mp huv
  obtain ⟨x', he', -⟩ := TransGen.head'_iff.mp huv'
  obtain ⟨a, w, ha, hw, hp⟩ := hg.path_of_chain hr h
  obtain ⟨w', a', hw', ha', hp'⟩ := hg.path_of_chain hr h'
  obtain rfl : u = a := Option.some.inj ((hg.position?_nameOf he).1.symm.trans ha)
  obtain rfl : u' = a' := Option.some.inj ((hg.position?_nameOf he').1.symm.trans ha')
  obtain rfl : w = w' := Option.some.inj (hw.symm.trans hw')
  refine ⟨w, (mem_component hb).mpr ⟨hvu.trans hp, hp'.trans huv'⟩, ?_⟩
  exact nameOf_of_position? (by rwa [hg.names])

/-- A cycle is reported by the names that depend on one of them and on which it depends, none of
them twice. -/
theorem exists_mem_cycle_iff (hg : g.Represents s) (hr : s.Resolved) (hc : s.Cyclic) :
    g.cycle.Nodup ∧ ∃ m, TransGen s.DependsOn m m ∧
      ∀ n, n ∈ g.cycle ↔ TransGen s.DependsOn n m ∧ TransGen s.DependsOn m n := by
  have hb := hg.bounded
  obtain ⟨v, hv, hf⟩ := firstCycle_eq hb ((hg.cyclic_iff hr).mp hc)
  have hvv : v ∈ g.reach.component v := (mem_component hb).mpr ⟨hv, hv⟩
  refine ⟨(cycle_pairwise_lt hg hf).imp Std.ne_of_lt, g.nameOf v, hg.chain_of_path hv, fun n => ?_⟩
  rw [mem_cycle, hf]
  constructor
  · rintro ⟨u, hu, rfl⟩
    obtain ⟨hvu, huv⟩ := (mem_component hb).mp hu
    exact ⟨hg.chain_of_path hvu, hg.chain_of_path huv⟩
  · rintro ⟨hnm, hmn⟩
    exact mem_component_of_chain hg hr hvv hvv hnm hmn

/-- The names that are reported as a cycle are those of one strongly connected component of the
dependencies in which there is a cycle, in ascending order. -/
theorem cycle_component {names : List String} (h : ofSpec s = .error (.cycle names)) :
    names ≠ [] ∧ names.Pairwise (· < ·) ∧ (∀ n ∈ names, n ∈ s.jobNames) ∧
    (∀ m ∈ names, ∀ n ∈ names, TransGen s.DependsOn m n) ∧
    ∀ n, ∀ m ∈ names, ∀ m' ∈ names,
      TransGen s.DependsOn n m → TransGen s.DependsOn m' n → n ∈ names := by
  obtain ⟨-, hr, hc, g, hg, rfl⟩ := of_ofSpec_cycle h
  have hb := hg.bounded
  obtain ⟨v, hv, hf⟩ := firstCycle_eq hb ((hg.cyclic_iff hr).mp hc)
  have hm : ∀ n, n ∈ g.cycle ↔ ∃ u ∈ g.reach.component v, g.nameOf u = n := by
    intro n
    rw [mem_cycle, hf]
  have hvv : v ∈ g.reach.component v := (mem_component hb).mpr ⟨hv, hv⟩
  have hchain : ∀ m ∈ g.cycle, ∀ n ∈ g.cycle, TransGen s.DependsOn m n := by
    intro m hmem n hnem
    obtain ⟨u, hu, rfl⟩ := (hm m).mp hmem
    obtain ⟨w, hw, rfl⟩ := (hm n).mp hnem
    exact hg.chain_of_path
      (((mem_component hb).mp hw).2.trans ((mem_component hb).mp hu).1)
  refine ⟨List.ne_nil_of_mem ((hm _).mpr ⟨v, hvv, rfl⟩), cycle_pairwise_lt hg hf, ?_, hchain, ?_⟩
  · intro n hn
    obtain ⟨d, hd, -⟩ := TransGen.head'_iff.mp (hchain n hn n hn)
    obtain ⟨j, hj, rfl, -⟩ := hd
    exact Spec.name_mem_jobNames hj
  · intro n m hmem m' hmem' hnm hmn
    obtain ⟨u, hu, rfl⟩ := (hm m).mp hmem
    obtain ⟨u', hu', rfl⟩ := (hm m').mp hmem'
    exact (hm n).mpr (mem_component_of_chain hg hr hu hu' hnm hmn)

/-- Three jobs in a circle, one that waits for them, and one that waits for itself. -/
def knot : Spec :=
  Spec.ofJobs [.waitingFor "lint" [], .waitingFor "b" ["lint", "a"], .waitingFor "deploy" ["a"],
    .waitingFor "a" ["c"], .waitingFor "c" ["b"], .waitingFor "x" ["x"]]

theorem cycle_component_knot :
    ofSpec knot = .error (.cycle ["a", "b", "c"]) ∧
    ["a", "b", "c"] ≠ [] ∧ ["a", "b", "c"].Pairwise (· < ·) ∧
    (∀ n ∈ ["a", "b", "c"], n ∈ knot.jobNames) ∧
    (∀ m ∈ ["a", "b", "c"], ∀ n ∈ ["a", "b", "c"], TransGen knot.DependsOn m n) ∧
    ∀ n, ∀ m ∈ ["a", "b", "c"], ∀ m' ∈ ["a", "b", "c"],
      TransGen knot.DependsOn n m → TransGen knot.DependsOn m' n → n ∈ ["a", "b", "c"] := by
  have h : ofSpec knot = .error (.cycle ["a", "b", "c"]) := by cbv
  exact ⟨h, cycle_component h⟩

end JobGraph

end Pipeline
