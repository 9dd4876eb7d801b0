import Pipeline.Proofs.Graph.Run

/-!
# The neighbours of a job, in order

Building goes through the declared dependencies, job by job, and adds an edge for each of them
unless it is there already. So the edges are the declared dependencies without repetitions, the
latest one first, and what stands next to a job can be read off from the specification.

* `eraseDups_concat`, `filterMap_eraseDups`: of a list, the first mention of each element is kept.
* `Spec.declared`: the declared dependencies, as pairs of names.
* `JobGraph.addJobs_edges`, `JobGraph.edges_eq`: the edges that building adds.
* `JobGraph.predecessors_eq`, `JobGraph.successors_eq`: the neighbours of any name.
* `JobGraph.neighbours_declared`: the same, job by job, where no two jobs have one name; and the
  jobs that depend on nothing.
-/

namespace Pipeline

/-! ## First mentions -/

section FirstMentions

variable {α β : Type} [BEq α] [LawfulBEq α] [BEq β] [LawfulBEq β]

theorem eraseDups_concat (l : List α) (x : α) :
    (l ++ [x]).eraseDups = if x ∈ l then l.eraseDups else l.eraseDups ++ [x] := by
  rw [List.eraseDups_append]
  by_cases h : x ∈ l <;> simp [List.removeAll, h, List.eraseDups_cons]

theorem eraseDups_append_of_forall_not_mem {l l' : List α} (h : ∀ x ∈ l', x ∉ l) :
    (l ++ l').eraseDups = l.eraseDups ++ l'.eraseDups := by
  have hnew : l'.removeAll l = l' := List.filter_eq_self.mpr fun x hx => by simp [h x hx]
  rw [List.eraseDups_append, hnew]

/-- Of a list that holds nothing but copies of one element, one is left. -/
theorem eraseDups_of_forall_eq {l : List α} {x : α} (h : ∀ y ∈ l, y = x) :
    l.eraseDups = if l = [] then [] else [x] := by
  cases l with
  | nil => rfl
  | cons y l =>
    obtain ⟨rfl, hl⟩ := List.forall_mem_cons.mp h
    have : l.filter (fun z => !z == y) = [] :=
      List.filter_eq_nil_iff.mpr fun z hz => by simp [hl z hz]
    simp [List.eraseDups_cons, this]

/-- A function that keeps the elements of a list apart keeps their first mentions. -/
theorem filterMap_eraseDups {f : α → Option β} {l : List α}
    (h : ∀ x ∈ l, ∀ y ∈ l, ∀ b, f x = some b → f y = some b → x = y) :
    l.eraseDups.filterMap f = (l.filterMap f).eraseDups := by
  induction l using List.reverseRecOn with
  | nil => rfl
  | append_singleton l x ih =>
    have ih := ih fun y hy z hz =>
      h y (List.mem_append_left _ hy) z (List.mem_append_left _ hz)
    rw [eraseDups_concat, List.filterMap_append]
    cases hx : f x with
    | none => split <;> simp [hx, ih]
    | some b =>
      have hb : b ∈ l.filterMap f ↔ x ∈ l := by
        rw [List.mem_filterMap]
        constructor
        · rintro ⟨y, hy, hyb⟩
          exact h y (List.mem_append_left _ hy) x (by simp) b hyb hx ▸ hy
        · exact fun hm => ⟨x, hm, hx⟩
      simp only [List.filterMap_cons, hx, List.filterMap_nil, eraseDups_concat, hb]
      split <;> simp [hx, ih]

end FirstMentions

/-- If one element of a list adds something, that is all there is. -/
theorem flatMap_eq_of_nodup {α β : Type} {l : List α} {a : α} {f : α → List β} (hd : l.Nodup)
    (ha : a ∈ l) (hf : ∀ b ∈ l, b ≠ a → f b = []) : l.flatMap f = f a := by
  obtain ⟨before, after, rfl⟩ := List.append_of_mem ha
  obtain ⟨hnot, -⟩ := List.nodup_cons.mp (List.nodup_middle.mp hd)
  have hbefore : before.flatMap f = [] := List.flatMap_eq_nil_iff.mpr fun b hb =>
    hf b (List.mem_append_left _ hb) fun e => hnot (List.mem_append_left _ (e ▸ hb))
  have hafter : after.flatMap f = [] := List.flatMap_eq_nil_iff.mpr fun b hb =>
    hf b (List.mem_append_right _ (List.mem_cons_of_mem _ hb)) fun e =>
      hnot (List.mem_append_right _ (e ▸ hb))
  rw [List.flatMap_append, List.flatMap_cons, hbefore, hafter, List.nil_append, List.append_nil]

/-! ## Declared dependencies -/

/-- The dependencies of a job in order, each with the name of the job. -/
def Job.declared (j : Job) : List (String × String) := j.dependencyNames.map (·, j.name)

/-- The dependencies of all jobs, in order. -/
def Spec.declared (s : Spec) : List (String × String) := s.jobs.flatMap Job.declared

namespace JobGraph

variable {g : JobGraph} {s : Spec} {names : List String} {j : Job} {n : String}

/-- The edge of a dependency, from the position of the first name to that of the second one. -/
def edge? (names : List String) (p : String × String) : Option (Nat × Nat) :=
  (position? names p.1).bind fun a => (position? names p.2).map fun b => (a, b)

theorem edge?_eq_some_iff {p : String × String} {a b : Nat} :
    edge? names p = some (a, b) ↔ position? names p.1 = some a ∧ position? names p.2 = some b := by
  simp [edge?, Option.bind_eq_some_iff]

/-- A position is that of one name only. -/
theorem position?_inj {m : String} {v : Nat} (hn : position? names n = some v)
    (hm : position? names m = some v) : n = m :=
  Option.some.inj ((getElem?_of_position? hn).symm.trans (getElem?_of_position? hm))

theorem edge?_inj {p q : String × String} {e : Nat × Nat} (hp : edge? names p = some e)
    (hq : edge? names q = some e) : p = q := by
  obtain ⟨ha, hb⟩ := edge?_eq_some_iff.mp hp
  obtain ⟨ha', hb'⟩ := edge?_eq_some_iff.mp hq
  exact Prod.ext (position?_inj ha ha') (position?_inj hb hb')

/-! ## The edges that building adds -/

section Building

variable {pairs edges : List (Nat × Nat)}

theorem addEdge_eraseDups (a b : Nat) :
    addEdge pairs.eraseDups.reverse a b = (pairs ++ [(a, b)]).eraseDups.reverse := by
  rw [addEdge, eraseDups_concat]
  simp only [List.mem_reverse, List.mem_eraseDups]
  split <;> simp

/-- Each dependency of a job becomes an edge, unless it was one before. -/
theorem addDependencies_edges {job : String} {ds : List String}
    (h : addDependencies names job ds pairs.eraseDups.reverse = .ok edges) :
    edges = (pairs ++ (ds.map (·, job)).filterMap (edge? names)).eraseDups.reverse := by
  induction ds generalizing pairs with
  | nil => simpa [addDependencies] using h.symm
  | cons d ds ih =>
    rw [addDependencies] at h
    split at h
    · rename_i a b ha hb
      rw [addEdge_eraseDups] at h
      have he : edge? names (d, job) = some (a, b) := edge?_eq_some_iff.mpr ⟨ha, hb⟩
      rw [ih h, List.map_cons, List.filterMap_cons_some he, List.append_assoc,
        List.singleton_append]
    · cases h

theorem addJobs_edges {js : List Job} (h : addJobs names js pairs.eraseDups.reverse = .ok edges) :
    edges = (pairs ++ (js.flatMap Job.declared).filterMap (edge? names)).eraseDups.reverse := by
  induction js generalizing pairs with
  | nil => simpa [addJobs] using h.symm
  | cons j js ih =>
    rw [addJobs] at h
    split at h
    · rename_i edges₁ h₁
      rw [addDependencies_edges h₁] at h
      rw [ih h, List.flatMap_cons, List.filterMap_append, ← List.append_assoc, Job.declared]
    · cases h

/-- The edges of a graph are the declared dependencies, each once, the one that is mentioned last
at the front. -/
theorem edges_eq (h : ofSpec s = .ok g) :
    g.edges = s.declared.eraseDups.reverse.filterMap (edge? s.jobNames) := by
  unfold ofSpec at h
  split at h
  · cases h
  · split at h
    · cases h
    · rename_i edges hedges
      simp only at h
      split at h
      · cases h
        rw [List.filterMap_reverse, filterMap_eraseDups fun p _ q _ e => edge?_inj]
        exact @addJobs_edges _ [] _ _ hedges
      · cases h

end Building

/-! ## Neighbours -/

theorem mem_declared {p : String × String} : p ∈ s.declared ↔ s.DependsOn p.2 p.1 := by
  simp only [Spec.declared, Job.declared, List.mem_flatMap, List.mem_map, Spec.DependsOn]
  constructor
  · rintro ⟨j, hj, d, hd, rfl⟩
    exact ⟨j, hj, rfl, hd⟩
  · rintro ⟨j, hj, hn, hd⟩
    exact ⟨j, hj, p.1, hd, Prod.ext rfl hn⟩

/-- A name means the position that another one means only if it is that name. -/
theorem position?_eq_iff {m : String} {v : Nat} (hm : position? names m = some v) :
    position? names n = some v ↔ m = n :=
  ⟨fun hn => position?_inj hm hn, fun e => e ▸ hm⟩

/-- What is read from the edges is read from the declared dependencies, if it is the same of each
dependency and its edge. -/
theorem filterMap_edges (h : ofSpec s = .ok g) {f : Nat × Nat → Option String}
    {f' : String × String → Option String}
    (hf : ∀ p a b, position? g.names p.1 = some a → position? g.names p.2 = some b →
      f (a, b) = f' p) :
    g.edges.filterMap f = s.declared.eraseDups.reverse.filterMap f' := by
  obtain ⟨-, hr, hg, -⟩ := of_ofSpec_ok h
  rw [edges_eq h, List.filterMap_filterMap]
  refine List.filterMap_congr fun p hp => ?_
  rw [List.mem_reverse, List.mem_eraseDups, mem_declared] at hp
  obtain ⟨a, b, ha, hb, -⟩ := hg.exists_edge hr hp
  rw [edge?_eq_some_iff.mpr ⟨ha, hb⟩, Option.bind_some]
  rw [← hg.names] at ha hb
  exact hf p a b ha hb

/-- The first name of a dependency that leads to a job of the name `n`. -/
def dependencyOf? (n : String) (p : String × String) : Option String :=
  if p.2 = n then some p.1 else none

/-- The second name of a dependency that a job has on the name `n`. -/
def dependentOn? (n : String) (p : String × String) : Option String :=
  if p.1 = n then some p.2 else none

/-- A dependency of a name is known from what is read of it. -/
theorem dependencyOf?_inj {p q : String × String} {d : String} (hp : dependencyOf? n p = some d)
    (hq : dependencyOf? n q = some d) : p = q := by
  obtain ⟨hpn, hpd⟩ := Option.ite_none_right_eq_some.mp hp
  obtain ⟨hqn, hqd⟩ := Option.ite_none_right_eq_some.mp hq
  exact Prod.ext (Option.some.inj (hpd.trans hqd.symm)) (hpn.trans hqn.symm)

theorem dependentOn?_inj {p q : String × String} {d : String} (hp : dependentOn? n p = some d)
    (hq : dependentOn? n q = some d) : p = q :=
  Prod.swap_inj.mp (@dependencyOf?_inj n p.swap q.swap d hp hq)

/-- The predecessors of a name are its dependencies, the last one that is declared first. -/
theorem predecessors_eq (h : ofSpec s = .ok g) :
    g.predecessors n = s.declared.eraseDups.reverse.filterMap (dependencyOf? n) := by
  have he : g.predecessors n = g.edges.filterMap fun e =>
      if position? g.names n = some e.2 then some (g.nameOf e.1) else none := by
    unfold predecessors before
    cases position? g.names n with
    | none => simp
    | some v => simp [List.map_filterMap, eq_comm, apply_ite (Option.map g.nameOf)]
  rw [he]
  refine filterMap_edges h fun p a b ha hb => ?_
  simp only [position?_eq_iff hb, nameOf_of_position? ha, dependencyOf?]

/-- The successors of a name are those that depend on it, the last one that is declared first. -/
theorem successors_eq (h : ofSpec s = .ok g) :
    g.successors n = s.declared.eraseDups.reverse.filterMap (dependentOn? n) := by
  have he : g.successors n = g.edges.filterMap fun e =>
      if position? g.names n = some e.1 then some (g.nameOf e.2) else none := by
    unfold successors after
    cases position? g.names n with
    | none => simp
    | some v => simp [List.map_filterMap, eq_comm, apply_ite (Option.map g.nameOf)]
  rw [he]
  refine filterMap_edges h fun p a b ha hb => ?_
  simp only [position?_eq_iff ha, nameOf_of_position? hb, dependentOn?]

/-! ## Neighbours job by job -/

/-- Only the job of a name adds the dependencies of that name. -/
theorem filterMap_dependencyOf? (hd : s.jobNames.Nodup) (hj : j ∈ s.jobs) :
    s.declared.filterMap (dependencyOf? j.name) = j.dependencyNames := by
  have hown : j.declared.filterMap (dependencyOf? j.name) = j.dependencyNames := by
    rw [Job.declared, List.filterMap_map]
    exact (List.filterMap_congr fun d _ => if_pos rfl).trans List.filterMap_some
  have hother : ∀ k ∈ s.jobs, k ≠ j → k.declared.filterMap (dependencyOf? j.name) = [] := by
    intro k hk hne
    refine List.filterMap_eq_nil_iff.mpr fun p hp => if_neg fun hn => hne ?_
    obtain ⟨d, -, rfl⟩ := List.mem_map.mp hp
    exact List.inj_on_of_nodup_map hd hk hj hn
  rw [Spec.declared, List.filterMap_flatMap, flatMap_eq_of_nodup (.of_map _ hd) hj hother, hown]

theorem mem_filterMap_dependentOn? {m : String} :
    m ∈ j.declared.filterMap (dependentOn? n) ↔ m = j.name ∧ n ∈ j.dependencyNames := by
  simp only [Job.declared, dependentOn?, List.mem_filterMap, List.mem_map,
    Option.ite_none_right_eq_some, Option.some.injEq]
  constructor
  · rintro ⟨_, ⟨d, hd, rfl⟩, rfl, rfl⟩
    exact ⟨rfl, hd⟩
  · rintro ⟨rfl, hn⟩
    exact ⟨_, ⟨n, hn, rfl⟩, rfl, rfl⟩

/-- A job that depends on a name several times is one of those that depend on it. -/
theorem eraseDups_filterMap_dependentOn? :
    (j.declared.filterMap (dependentOn? n)).eraseDups =
      if n ∈ j.dependencyNames then [j.name] else [] := by
  rw [eraseDups_of_forall_eq fun m hm => (mem_filterMap_dependentOn?.mp hm).1]
  by_cases hn : n ∈ j.dependencyNames
  · rw [if_pos hn, if_neg (List.ne_nil_of_mem (mem_filterMap_dependentOn?.mpr ⟨rfl, hn⟩))]
  · have hnil : j.declared.filterMap (dependentOn? n) = [] :=
      List.eq_nil_iff_forall_not_mem.mpr fun m hm => hn (mem_filterMap_dependentOn?.mp hm).2
    rw [if_neg hn, if_pos hnil]

theorem eraseDups_flatMap_dependentOn? {js : List Job} (hd : (js.map Job.name).Nodup) :
    ((js.flatMap Job.declared).filterMap (dependentOn? n)).eraseDups =
      (js.filter fun k => k.dependencyNames.contains n).map Job.name := by
  induction js with
  | nil => rfl
  | cons j js ih =>
    obtain ⟨hj, hjs⟩ := List.nodup_cons.mp hd
    have hnew : ∀ m ∈ (js.flatMap Job.declared).filterMap (dependentOn? n),
        m ∉ j.declared.filterMap (dependentOn? n) := by
      rintro m hm hmj
      rw [List.filterMap_flatMap, List.mem_flatMap] at hm
      obtain ⟨k, hk, hmk⟩ := hm
      obtain ⟨rfl, -⟩ := mem_filterMap_dependentOn?.mp hmj
      obtain ⟨hn, -⟩ := mem_filterMap_dependentOn?.mp hmk
      exact hj (hn ▸ List.mem_map_of_mem hk)
    rw [List.flatMap_cons, List.filterMap_append, eraseDups_append_of_forall_not_mem hnew,
      eraseDups_filterMap_dependentOn?, ih hjs]
    by_cases hn : n ∈ j.dependencyNames <;> simp [hn]

/-! ## Laws -/

section Laws

variable (hd : s.jobNames.Nodup) (h : ofSpec s = .ok g)
include hd h

theorem predecessors_name (hj : j ∈ s.jobs) :
    g.predecessors j.name = j.dependencyNames.eraseDups.reverse := by
  rw [predecessors_eq h, List.filterMap_reverse,
    filterMap_eraseDups fun p _ q _ d => dependencyOf?_inj, filterMap_dependencyOf? hd hj]

theorem successors_name (n : String) :
    g.successors n =
      ((s.jobs.filter fun k => k.dependencyNames.contains n).map Job.name).reverse := by
  rw [successors_eq h, List.filterMap_reverse,
    filterMap_eraseDups fun p _ q _ d => dependentOn?_inj, Spec.declared,
    eraseDups_flatMap_dependentOn? hd]

/-- The roots are the names without predecessors. -/
theorem roots_eq_filter_names :
    g.roots = g.names.filter fun n => (g.predecessors n).isEmpty := by
  obtain ⟨-, -, hg, -⟩ := of_ofSpec_ok h
  rw [roots, ← nodes_map_nameOf, List.filter_map]
  congr 1
  refine List.filter_congr fun v hv => ?_
  rw [Function.comp_apply, predecessors, position?_nameOf_of_nodup (hg.names ▸ hd) hv,
    List.isEmpty_map]

theorem roots_eq : g.roots = (s.jobs.filter fun j => j.jobDependencies.isEmpty).map Job.name := by
  obtain ⟨-, -, hg, -⟩ := of_ofSpec_ok h
  rw [roots_eq_filter_names hd h, hg.names, Spec.jobNames, List.filter_map]
  congr 1
  refine List.filter_congr fun j hj => ?_
  rw [Function.comp_apply, predecessors_name hd h hj, Job.dependencyNames]
  cases j.jobDependencies <;> simp [List.eraseDups_cons]

/-- Some job depends on nothing: the one that can be run first. -/
theorem roots_ne_nil : g.roots ≠ [] := by
  obtain ⟨hne, hr, hg, hc⟩ := of_ofSpec_ok h
  obtain ⟨j, hj⟩ := List.exists_mem_of_ne_nil _ hne
  obtain ⟨n, hn, -, hready⟩ :=
    exists_ready hg hr hd hc (Spec.name_mem_jobNames hj) (List.not_mem_nil (a := j.name))
  have hnone : g.predecessors n = [] := by
    simpa [isReady, List.eq_nil_iff_forall_not_mem] using hready
  refine List.ne_nil_of_mem (a := n) ?_
  rw [roots_eq_filter_names hd h, List.mem_filter, hnone]
  exact ⟨hg.names ▸ hn, rfl⟩

/-- The graph of a specification whose jobs have different names says of each job what is declared.
The names that it depends on are listed once each, against the order in which they are first
mentioned, and the jobs that depend on it once each, against the order of the jobs; these two lists
are converse to each other, and empty for a name that no job has. The roots are the jobs that
declare no dependency, in order, and there is one. -/
theorem neighbours_declared :
    (∀ j ∈ s.jobs,
      g.predecessors j.name = j.dependencyNames.eraseDups.reverse ∧
      g.successors j.name =
        ((s.jobs.filter fun k => k.dependencyNames.contains j.name).map Job.name).reverse) ∧
    (∀ m n, m ∈ g.predecessors n ↔ n ∈ g.successors m) ∧
    g.roots = (s.jobs.filter fun j => j.jobDependencies.isEmpty).map Job.name ∧ g.roots ≠ [] ∧
    ∀ n, n ∉ s.jobNames → g.predecessors n = [] ∧ g.successors n = [] := by
  obtain ⟨-, hr, hg, -⟩ := of_ofSpec_ok h
  refine ⟨fun j hj => ⟨predecessors_name hd h hj, successors_name hd h _⟩, fun m n => ?_,
    roots_eq hd h, roots_ne_nil hd h, fun n hn => ?_⟩
  · rw [hg.mem_predecessors hr, hg.mem_successors hr]
  · have hp : position? g.names n = none := position?_eq_none (hg.names ▸ hn)
    exact ⟨by rw [predecessors, hp], by rw [successors, hp]⟩

end Laws

theorem neighbours_declared_diamond :
    diamond.jobNames.Nodup ∧ ofSpec diamond = .ok diamondGraph ∧
    diamondGraph.predecessors "deploy" = ["lint", "unit"] ∧
    diamondGraph.successors "build" = ["lint", "unit"] ∧ diamondGraph.roots = ["build"] ∧
    diamondGraph.predecessors "nightly" = [] := by
  have hd : diamond.jobNames.Nodup := by decide
  have h : ofSpec diamond = .ok diamondGraph := by cbv
  obtain ⟨hjobs, -, hroots, -, hother⟩ := neighbours_declared hd h
  have hdeploy : Job.waitingFor "deploy" ["unit", "lint", "unit"] ∈ diamond.jobs := .head _
  have hbuild : Job.waitingFor "build" [] ∈ diamond.jobs := .tail _ (.tail _ (.tail _ (.head _)))
  refine ⟨hd, h, (hjobs _ hdeploy).1.trans ?_, (hjobs _ hbuild).2.trans ?_, hroots.trans ?_,
    (hother "nightly" ?_).1⟩
  · decide
  · decide
  · decide
  · decide

end JobGraph

end Pipeline
