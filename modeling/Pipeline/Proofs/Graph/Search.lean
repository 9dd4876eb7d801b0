import Mathlib.Data.List.Nodup
import Mathlib.Logic.Relation
import Pipeline.Graph.Search

/-!
# What a depth-first search finds

The search is a run of three steps: a node is left, a node is entered for the first time, or a
node that was seen before is passed over. `search_induction` packages the run; everything else
is an invariant of the three steps.

* `finished_perm`: a search that starts from all nodes finishes every node once.
* `mem_finished_iff`: the nodes that a search finishes are those that can be reached.
* `finished_idxOf_lt`: in a graph without cycles a node is finished after all nodes that follow
  it, so it stands in front of them.
-/

namespace Pipeline

namespace Graph

open Relation

variable {next : Nat → List Nat} {nodes unseen done : List Nat} {tasks : List Task}

/-- The node that a task is for. -/
def Task.node : Task → Nat
  | .enter v => v
  | .leave v => v

/-- The nodes that the search has come to and not finished, the latest one first. -/
def active : List Task → List Nat
  | [] => []
  | .enter _ :: ts => active ts
  | .leave v :: ts => v :: active ts

/-- The nodes that are finished or that some task is for. -/
def known (tasks : List Task) (done : List Nat) : List Nat := done ++ tasks.map Task.node

/-- One node follows another. -/
def Follows (next : Nat → List Nat) (v w : Nat) : Prop := w ∈ next v

/-- What follows one of some nodes is one of them. -/
def Closed (next : Nat → List Nat) (nodes : List Nat) : Prop :=
  ∀ v ∈ nodes, ∀ w ∈ next v, w ∈ nodes

@[simp] theorem active_map_enter_append (vs : List Nat) (ts : List Task) :
    active (vs.map .enter ++ ts) = active ts := by
  induction vs with
  | nil => rfl
  | cons v vs ih => exact ih

@[simp] theorem active_map_enter (vs : List Nat) : active (vs.map .enter) = [] := by
  simpa [active] using active_map_enter_append vs []

theorem leave_mem_of_mem_active {v : Nat} {ts : List Task} (h : v ∈ active ts) :
    .leave v ∈ ts := by
  induction ts with
  | nil => simp [active] at h
  | cons t ts ih =>
    cases t with
    | enter w => exact List.mem_cons_of_mem _ (ih h)
    | leave w =>
      rcases List.mem_cons.mp h with rfl | h
      · exact List.mem_cons_self
      · exact List.mem_cons_of_mem _ (ih h)

section Known

variable {v w : Nat} {ts : List Task} {d : List Nat}

@[simp] theorem mem_known_nil : w ∈ known [] d ↔ w ∈ d := by simp [known]

@[simp] theorem mem_known_cons_done : w ∈ known ts (v :: d) ↔ w = v ∨ w ∈ known ts d := by
  simp [known]

@[simp] theorem mem_known_enter : w ∈ known (.enter v :: ts) d ↔ w = v ∨ w ∈ known ts d := by
  simp [known, Task.node, or_left_comm]

@[simp] theorem mem_known_leave : w ∈ known (.leave v :: ts) d ↔ w = v ∨ w ∈ known ts d := by
  simp [known, Task.node, or_left_comm]

@[simp] theorem mem_known_map_enter_append {vs : List Nat} :
    w ∈ known (vs.map .enter ++ ts) d ↔ w ∈ vs ∨ w ∈ known ts d := by
  induction vs with
  | nil => simp
  | cons v vs ih => simp [ih, or_assoc]

theorem mem_known_of_done (h : v ∈ d) : v ∈ known ts d := List.mem_append_left _ h

theorem mem_known_of_active (h : v ∈ active ts) : v ∈ known ts d :=
  List.mem_append_right _ (List.mem_map.mpr ⟨.leave v, leave_mem_of_mem_active h, rfl⟩)

end Known

/-- What holds at the start of a search and is kept by each of its steps holds at its end. -/
theorem search_induction {motive : List Nat → List Task → List Nat → Prop}
    (leave : ∀ {u v ts d}, motive u (.leave v :: ts) d → motive u ts (v :: d))
    (visit : ∀ {u v ts d}, v ∈ u → motive u (.enter v :: ts) d →
      motive (u.erase v) ((next v).map .enter ++ .leave v :: ts) d)
    (skip : ∀ {u v ts d}, v ∉ u → motive u (.enter v :: ts) d → motive u ts d)
    (start : motive unseen tasks done) :
    ∃ left, motive left [] (search next unseen tasks done) := by
  fun_induction search next unseen tasks done with
  | case1 u d => exact ⟨u, start⟩
  | case2 u d v ts ih => exact ih (leave start)
  | case3 u d v ts hv ih => exact ih (visit hv start)
  | case4 u d v ts hv ih => exact ih (skip hv start)

/-! ## Every node is in one place -/

/-- Each node is unseen, active or finished, and none is so twice. -/
def Placed (nodes unseen : List Nat) (tasks : List Task) (done : List Nat) : Prop :=
  (unseen ++ active tasks ++ done).Perm nodes

namespace Placed

variable {v : Nat}

theorem leave (h : Placed nodes unseen (.leave v :: tasks) done) :
    Placed nodes unseen tasks (v :: done) := by
  unfold Placed at *
  simp only [active, List.append_assoc, List.cons_append] at h ⊢
  exact (List.Perm.append_left _ List.perm_middle).trans h

theorem visit (hv : v ∈ unseen) (h : Placed nodes unseen (.enter v :: tasks) done) :
    Placed nodes (unseen.erase v) ((next v).map .enter ++ .leave v :: tasks) done := by
  unfold Placed at *
  simp only [active_map_enter_append, active, List.append_assoc, List.cons_append] at h ⊢
  refine List.perm_middle.trans (List.Perm.trans ?_ h)
  exact (List.perm_cons_erase hv).symm.append_right _

theorem skip (h : Placed nodes unseen (.enter v :: tasks) done) :
    Placed nodes unseen tasks done := h

/-- A node that is not unseen is active or finished. -/
theorem seen (h : Placed nodes unseen tasks done) (hn : v ∈ nodes) (hv : v ∉ unseen) :
    v ∈ active tasks ∨ v ∈ done := by
  have : v ∈ unseen ++ active tasks ++ done := h.mem_iff.mpr hn
  simpa [hv] using this

theorem nodup (h : Placed nodes unseen tasks done) (hn : nodes.Nodup) : done.Nodup :=
  List.Nodup.of_append_right (h.nodup_iff.mpr hn)

theorem start (vs : List Nat) : Placed nodes nodes (vs.map .enter) [] := by
  simp [Placed]

end Placed

/-! ## Everything that can be reached is found -/

/-- The nodes that were seen are known with all that follows them, and the known ones are those
that can be reached from where the search started, as far as it has come. -/
structure Explored (next : Nat → List Nat) (starts : List Nat) (tasks : List Task)
    (done : List Nat) : Prop where
  started : ∀ v ∈ starts, v ∈ known tasks done
  closed : ∀ v, v ∈ active tasks ∨ v ∈ done → ∀ w ∈ next v, w ∈ known tasks done
  reached : ∀ w ∈ known tasks done, ∃ v ∈ starts, ReflTransGen (Follows next) v w

namespace Explored

variable {starts : List Nat} {v : Nat}

/-- Two states with the same known nodes, and at most one more that was seen. -/
theorem of_known {tasks' : List Task} {done' : List Nat} (h : Explored next starts tasks done)
    (hk : ∀ w, w ∈ known tasks' done' ↔ w ∈ known tasks done)
    (hs : ∀ w, w ∈ active tasks' ∨ w ∈ done' → w ∈ active tasks ∨ w ∈ done) :
    Explored next starts tasks' done' :=
  ⟨fun w hw => (hk w).mpr (h.started w hw),
    fun u hu w hw => (hk w).mpr (h.closed u (hs u hu) w hw),
    fun w hw => h.reached w ((hk w).mp hw)⟩

theorem leave (h : Explored next starts (.leave v :: tasks) done) :
    Explored next starts tasks (v :: done) := by
  apply h.of_known
  · intro w
    simp
  · intro w hw
    simp only [active, List.mem_cons] at hw ⊢
    tauto

theorem visit (h : Explored next starts (.enter v :: tasks) done) :
    Explored next starts ((next v).map .enter ++ .leave v :: tasks) done := by
  refine ⟨fun w hw => ?_, fun u hu w hw => ?_, fun w hw => ?_⟩
  · have := h.started w hw
    simp only [mem_known_enter, mem_known_map_enter_append, mem_known_leave] at this ⊢
    exact .inr this
  · simp only [active_map_enter_append, active, List.mem_cons] at hu
    simp only [mem_known_map_enter_append, mem_known_leave]
    by_cases huv : u = v
    · subst huv
      exact .inl hw
    · have := h.closed u (by simp only [active]; tauto) w hw
      exact .inr (by simpa using this)
  · simp only [mem_known_map_enter_append, mem_known_leave] at hw
    rcases hw with hw | hw
    · obtain ⟨s, hs, hr⟩ := h.reached v (by simp)
      exact ⟨s, hs, hr.tail hw⟩
    · exact h.reached w (by simpa using hw)

theorem skip (hv : v ∈ active tasks ∨ v ∈ done)
    (h : Explored next starts (.enter v :: tasks) done) : Explored next starts tasks done := by
  apply h.of_known
  · intro w
    have hk : v ∈ known tasks done := hv.elim mem_known_of_active mem_known_of_done
    simp only [mem_known_enter]
    exact ⟨.inr, fun hw => hw.elim (fun e => e ▸ hk) id⟩
  · intro w hw
    exact hw

theorem start : Explored next starts (starts.map .enter) [] := by
  refine ⟨fun v hv => ?_, fun v hv => ?_, fun v hv => ?_⟩
  · simpa [known, Task.node] using hv
  · simp at hv
  · exact ⟨v, by simpa [known, Task.node] using hv, .refl⟩

end Explored

section Finished

variable {starts : List Nat}

/-- What can be reached from one of the nodes is one of them. -/
theorem Closed.mem_of_reached {v w : Nat} (hn : Closed next nodes) (hv : v ∈ nodes)
    (h : ReflTransGen (Follows next) v w) : w ∈ nodes := by
  induction h with
  | refl => exact hv
  | tail _ hw ih => exact hn _ ih _ hw

/-- The state in which a search ends. -/
theorem finished_explored (hs : ∀ v ∈ starts, v ∈ nodes)
    (hn : Closed next nodes) :
    ∃ left, Placed nodes left [] (finished next nodes starts) ∧
      Explored next starts [] (finished next nodes starts) := by
  refine search_induction (motive := fun u ts d => Placed nodes u ts d ∧ Explored next starts ts d)
    (fun h => ⟨h.1.leave, h.2.leave⟩) (fun hv h => ⟨h.1.visit hv, h.2.visit⟩) ?_
    ⟨Placed.start starts, .start⟩
  intro u v ts d hv h
  obtain ⟨s, hs', hr⟩ := h.2.reached v (by simp)
  exact ⟨h.1.skip, h.2.skip (h.1.skip.seen (hn.mem_of_reached (hs s hs') hr) hv)⟩

/-- A search finishes the nodes that can be reached from where it starts. -/
theorem mem_finished_iff (hs : ∀ v ∈ starts, v ∈ nodes)
    (hn : Closed next nodes) {w : Nat} :
    w ∈ finished next nodes starts ↔ ∃ v ∈ starts, ReflTransGen (Follows next) v w := by
  obtain ⟨left, -, he⟩ := finished_explored hs hn
  constructor
  · intro hw
    exact he.reached w (by simpa using hw)
  · rintro ⟨v, hv, hr⟩
    induction hr with
    | refl => simpa using he.started v hv
    | tail _ hw ih => simpa using he.closed _ (.inr ih) _ hw

theorem finished_nodup (hs : ∀ v ∈ starts, v ∈ nodes)
    (hn : Closed next nodes) (hd : nodes.Nodup) :
    (finished next nodes starts).Nodup := by
  obtain ⟨left, hp, -⟩ := finished_explored hs hn
  exact hp.nodup hd

/-- A search that starts from all nodes finishes every node once. -/
theorem finished_perm (hn : Closed next nodes) (hd : nodes.Nodup) :
    (finished next nodes nodes).Perm nodes := by
  have hs : ∀ v ∈ nodes, v ∈ nodes := fun _ h => h
  refine (List.perm_ext_iff_of_nodup (finished_nodup hs hn hd) hd).mpr fun w => ?_
  rw [mem_finished_iff hs hn]
  exact ⟨fun ⟨v, hv, hr⟩ => hn.mem_of_reached hv hr, fun hw => ⟨w, hw, .refl⟩⟩

end Finished

/-! ## Without cycles, what follows a node is finished before it -/

/-- No node can be reached from itself. -/
def Acyclic (next : Nat → List Nat) : Prop := ∀ v, ¬ TransGen (Follows next) v v

/-- What follows a node of a list stands behind it. -/
def Forward (next : Nat → List Nat) : List Nat → Prop
  | [] => True
  | v :: vs => (∀ w ∈ next v, w ∈ vs) ∧ Forward next vs

/-- What follows an active node is among `ahead`, or has a task in front of the one that leaves
the node. -/
def Awaited (next : Nat → List Nat) (ahead : List Nat) : List Task → Prop
  | [] => True
  | .enter v :: ts => Awaited next (v :: ahead) ts
  | .leave v :: ts => (∀ w ∈ next v, w ∈ ahead) ∧ Awaited next (v :: ahead) ts

/-- The node of a task can be reached from every active node whose task stands behind it. -/
def Nested (next : Nat → List Nat) (tasks : List Task) : Prop :=
  tasks.Pairwise fun t t' => ∀ v, t' = .leave v → TransGen (Follows next) v t.node

theorem Awaited.mono {ahead ahead' : List Nat} (h : Awaited next ahead tasks)
    (hs : ∀ v ∈ ahead, v ∈ ahead') : Awaited next ahead' tasks := by
  induction tasks generalizing ahead ahead' with
  | nil => trivial
  | cons t ts ih =>
    have hc : ∀ v, ∀ w ∈ v :: ahead, w ∈ v :: ahead' := fun v w hw =>
      List.mem_cons.mpr ((List.mem_cons.mp hw).imp id (hs w))
    cases t with
    | enter v => exact ih h (hc v)
    | leave v => exact ⟨fun w hw => hs w (h.1 w hw), ih h.2 (hc v)⟩

theorem Awaited.map_enter_append {ahead vs : List Nat} (h : Awaited next (vs ++ ahead) tasks) :
    Awaited next ahead (vs.map .enter ++ tasks) := by
  induction vs generalizing ahead with
  | nil => exact h
  | cons v vs ih => exact ih (h.mono fun w hw => by simpa [or_left_comm] using hw)

/-- Nodes that are entered together stand in front of the one that they follow. -/
theorem Nested.visit {v : Nat} (h : Nested next (.enter v :: tasks)) :
    Nested next ((next v).map .enter ++ .leave v :: tasks) := by
  obtain ⟨hv, ht⟩ := List.pairwise_cons.mp h
  refine List.pairwise_append.mpr ⟨?_, List.pairwise_cons.mpr ⟨hv, ht⟩, ?_⟩
  · refine List.pairwise_map.mpr (List.pairwise_of_forall fun _ _ _ h => ?_)
    cases h
  · intro t htm t' ht' u hu
    obtain ⟨w, hw, rfl⟩ := List.mem_map.mp htm
    rcases List.mem_cons.mp ht' with rfl | ht'
    · cases hu
      exact .single hw
    · exact (hv t' ht' u hu).tail hw

/-- The state of a search in a graph without cycles. -/
structure Ordered (next : Nat → List Nat) (nodes unseen : List Nat) (tasks : List Task)
    (done : List Nat) : Prop where
  placed : Placed nodes unseen tasks done
  inside : ∀ w ∈ known tasks done, w ∈ nodes
  nested : Nested next tasks
  awaited : Awaited next done tasks
  forward : Forward next done

namespace Ordered

variable {v : Nat}

theorem leave (h : Ordered next nodes unseen (.leave v :: tasks) done) :
    Ordered next nodes unseen tasks (v :: done) where
  placed := h.placed.leave
  inside w hw := h.inside w (by simpa using hw)
  nested := h.nested.tail
  awaited := h.awaited.2
  forward := ⟨h.awaited.1, h.forward⟩

theorem visit (hn : Closed next nodes) (hv : v ∈ unseen)
    (h : Ordered next nodes unseen (.enter v :: tasks) done) :
    Ordered next nodes (unseen.erase v) ((next v).map .enter ++ .leave v :: tasks) done where
  placed := h.placed.visit hv
  inside w hw := by
    simp only [mem_known_map_enter_append, mem_known_leave] at hw
    rcases hw with hw | hw
    · exact hn v (h.inside v (by simp)) w hw
    · exact h.inside w (by simpa using hw)
  nested := h.nested.visit
  awaited := by
    refine Awaited.map_enter_append ⟨fun w hw => List.mem_append_left _ hw, ?_⟩
    refine Awaited.mono (h.awaited : Awaited next (v :: done) tasks) fun w hw => ?_
    simp only [List.mem_cons, List.mem_append] at hw ⊢
    exact hw.imp id .inr
  forward := h.forward

/-- A node that is entered again is finished: were it active, it could be reached from itself. -/
theorem skip (ha : Acyclic next) (hv : v ∉ unseen)
    (h : Ordered next nodes unseen (.enter v :: tasks) done) :
    Ordered next nodes unseen tasks done where
  placed := h.placed.skip
  inside w hw := h.inside w (by simp [hw])
  nested := h.nested.tail
  awaited := by
    have hd : v ∈ done := by
      rcases h.placed.skip.seen (h.inside v (by simp)) hv with hact | hd
      · have hl := (List.pairwise_cons.mp h.nested).1 _ (leave_mem_of_mem_active hact) v rfl
        exact absurd hl (ha v)
      · exact hd
    refine Awaited.mono (h.awaited : Awaited next (v :: done) tasks) fun w hw => ?_
    rcases List.mem_cons.mp hw with rfl | hw
    · exact hd
    · exact hw
  forward := h.forward

theorem start {starts : List Nat} (hs : ∀ v ∈ starts, v ∈ nodes) :
    Ordered next nodes nodes (starts.map .enter) [] where
  placed := Placed.start starts
  inside w hw := hs w (by simpa [known, Task.node] using hw)
  nested := by
    refine List.pairwise_map.mpr (List.pairwise_of_forall fun _ _ _ h => ?_)
    cases h
  awaited := by
    have h : Awaited next [] (starts.map .enter ++ []) := Awaited.map_enter_append trivial
    simpa using h
  forward := trivial

end Ordered

theorem finished_forward {starts : List Nat} (ha : Acyclic next) (hn : Closed next nodes)
    (hs : ∀ v ∈ starts, v ∈ nodes) : Forward next (finished next nodes starts) := by
  obtain ⟨left, h⟩ := search_induction (motive := Ordered next nodes) (fun h => h.leave)
    (fun hv h => h.visit hn hv) (fun hv h => h.skip ha hv) (Ordered.start hs)
  exact h.forward

theorem Forward.mem {vs : List Nat} {v w : Nat} (h : Forward next vs) (hv : v ∈ vs)
    (hw : w ∈ next v) : w ∈ vs := by
  induction vs with
  | nil => cases hv
  | cons u us ih =>
    rcases List.mem_cons.mp hv with rfl | hv
    · exact List.mem_cons_of_mem _ (h.1 w hw)
    · exact List.mem_cons_of_mem _ (ih h.2 hv)

theorem Forward.idxOf_lt {vs : List Nat} {v w : Nat} (h : Forward next vs) (hd : vs.Nodup)
    (hv : v ∈ vs) (hw : w ∈ next v) : vs.idxOf v < vs.idxOf w := by
  induction vs with
  | nil => cases hv
  | cons u us ih =>
    obtain ⟨hu, hd⟩ := List.nodup_cons.mp hd
    rcases List.mem_cons.mp hv with rfl | hv
    · have hne : v ≠ w := fun e => hu (e ▸ h.1 w hw)
      rw [List.idxOf_cons_self, List.idxOf_cons_ne _ hne]
      exact Nat.succ_pos _
    · have hv' : u ≠ v := fun e => hu (e ▸ hv)
      have hw' : u ≠ w := fun e => hu (e ▸ h.2.mem hv hw)
      rw [List.idxOf_cons_ne _ hv', List.idxOf_cons_ne _ hw']
      exact Nat.succ_lt_succ (ih h.2 hd hv)

/-- In a graph without cycles a node stands in front of all that follow it, when the nodes are
listed by the search that finished them. -/
theorem finished_idxOf_lt {starts : List Nat} {v w : Nat} (ha : Acyclic next)
    (hn : Closed next nodes) (hs : ∀ v ∈ starts, v ∈ nodes) (hd : nodes.Nodup)
    (hv : v ∈ finished next nodes starts) (hw : w ∈ next v) :
    (finished next nodes starts).idxOf v < (finished next nodes starts).idxOf w :=
  (finished_forward ha hn hs).idxOf_lt (finished_nodup hs hn hd) hv hw

end Graph

end Pipeline
