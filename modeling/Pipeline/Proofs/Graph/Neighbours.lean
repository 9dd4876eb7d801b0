import Pipeline.Proofs.Graph.Order

/-!
# The neighbours of a job

The graph is asked by names: a name is looked up, and the positions next to the one found are
turned back into names. In a graph that represents a specification, this gives the declared
dependencies, read forwards (`Represents.mem_predecessors`) and backwards
(`Represents.mem_successors`), also where a name means several jobs or none.
-/

namespace Pipeline

namespace JobGraph

variable {g : JobGraph} {s : Spec} {n d : String}

theorem mem_before {a b : Nat} : a ∈ g.before b ↔ g.Edge a b := by
  simp [before, Edge]

/-- Where no two jobs have one name, the name of a position means that position. -/
theorem position?_nameOf_of_nodup (hd : g.names.Nodup) {v : Nat} (hv : v ∈ g.nodes) :
    position? g.names (g.nameOf v) = some v := by
  have hl : v < g.names.length := List.mem_range.mp hv
  have hn : g.names[v]? = some (g.nameOf v) := by simp [nameOf, hl]
  obtain ⟨w, hw⟩ := exists_position? (List.mem_of_getElem? hn)
  rw [hw, (List.getElem?_inj hl hd).mp (hn.trans (getElem?_of_position? hw).symm)]

namespace Represents

/-- The dependencies are the edges, named at both ends. -/
theorem dependsOn_iff (hg : g.Represents s) (hr : s.Resolved) :
    s.DependsOn n d ↔ ∃ a b, position? g.names d = some a ∧ position? g.names n = some b ∧
      g.Edge a b := by
  rw [hg.names]
  refine ⟨hg.exists_edge hr, fun ⟨a, b, ha, hb, he⟩ => ?_⟩
  rw [← hg.names] at ha hb
  have := hg.dependsOn_of_edge he
  rwa [nameOf_of_position? ha, nameOf_of_position? hb] at this

/-- The predecessors of a job are the names that it depends on. -/
theorem mem_predecessors (hg : g.Represents s) (hr : s.Resolved) :
    d ∈ g.predecessors n ↔ s.DependsOn n d := by
  rw [hg.dependsOn_iff hr, predecessors]
  cases hn : position? g.names n with
  | none => simp
  | some v =>
    simp only [List.mem_map, mem_before]
    constructor
    · rintro ⟨a, he, rfl⟩
      have ha := (hg.position?_nameOf he).1
      exact ⟨a, v, hg.names ▸ ha, rfl, he⟩
    · rintro ⟨a, b, ha, hb, he⟩
      cases hb
      exact ⟨a, he, nameOf_of_position? ha⟩

/-- The successors of a job are the names of the jobs that depend on it. -/
theorem mem_successors (hg : g.Represents s) (hr : s.Resolved) :
    n ∈ g.successors d ↔ s.DependsOn n d := by
  rw [hg.dependsOn_iff hr, successors]
  cases hd : position? g.names d with
  | none => simp
  | some v =>
    simp only [List.mem_map, mem_after]
    constructor
    · rintro ⟨b, he, rfl⟩
      have hb := (hg.position?_nameOf he).2
      exact ⟨v, b, rfl, hg.names ▸ hb, he⟩
    · rintro ⟨a, b, ha, hb, he⟩
      cases ha
      exact ⟨b, he, nameOf_of_position? hb⟩

/-- A job is ready when all that it depends on is completed. -/
theorem isReady_iff (hg : g.Represents s) (hr : s.Resolved) {completed : List String} :
    g.isReady n completed = true ↔ ∀ d, s.DependsOn n d → d ∈ completed := by
  simp only [isReady, List.all_eq_true, List.contains_iff_mem, hg.mem_predecessors hr]

end Represents

end JobGraph

end Pipeline
