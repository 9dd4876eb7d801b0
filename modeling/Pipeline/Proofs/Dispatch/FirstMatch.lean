import Mathlib.Data.List.Forall2
import Pipeline.Proofs.Dispatch.Firing

/-!
# The first trigger that fires

Triggers are tried in the order in which a job declares them, and the first one that an event fires
starts the job.

* `Dispatch.IsFirst`: a dispatch is for a job, and reports the first of its triggers that fires.
* `forall₂_filter_filterMap`: what `filterMap` keeps of a list belongs, one by one, to what
  `filter` keeps of it.
* `Spec.dispatch_eq_iff`: the dispatches of an event are those of the jobs that it starts, in order.
-/

namespace Pipeline

section Lists

variable {α β : Type} {r : α → β → Prop} {p : α → Bool} {f : α → Option β}

/-- What is made of the elements that pass a test stands in their order, one for each of them. -/
theorem forall₂_filter_filterMap (hp : ∀ a, p a = (f a).isSome)
    (hf : ∀ a b, f a = some b → r a b) (l : List α) :
    List.Forall₂ r (l.filter p) (l.filterMap f) := by
  induction l with
  | nil => exact .nil
  | cons a l ih =>
    cases ha : f a with
    | none =>
      have hpa : ¬ p a = true := by simp [hp, ha]
      rwa [List.filter_cons_of_neg hpa, List.filterMap_cons_none ha]
    | some b =>
      have hpa : p a = true := by simp [hp, ha]
      rw [List.filter_cons_of_pos hpa, List.filterMap_cons_some ha]
      exact .cons (hf a b ha) ih

end Lists

/-- A dispatch is for a job, and its trigger is the one at the least of the positions of those that
an event fires. -/
structure Dispatch.IsFirst (d : Dispatch) (e : Event) (j : Job) : Prop where
  jobName : d.jobName = j.name
  least : IsLeast (j.firedAt e) d.triggerIndex
  trigger : j.triggers[d.triggerIndex]? = some d.trigger

namespace Dispatch

variable {e : Event} {j : Job} {d d' : Dispatch}

theorem isFirst_iff :
    d.IsFirst e j ↔
      d.jobName = j.name ∧ j.matchedTrigger? e = some (d.triggerIndex, d.trigger) := by
  rw [Job.matchedTrigger?_eq_some_iff]
  exact ⟨fun h => ⟨h.jobName, h.least, h.trigger⟩, fun ⟨hn, hl, ht⟩ => ⟨hn, hl, ht⟩⟩

/-- A job and an event leave no choice. -/
theorem IsFirst.unique (h : d.IsFirst e j) (h' : d'.IsFirst e j) : d = d' := by
  obtain ⟨name, i, t⟩ := d
  obtain ⟨name', i', t'⟩ := d'
  obtain rfl : name = name' := h.jobName.trans h'.jobName.symm
  obtain rfl : i = i' := h.least.unique h'.least
  obtain rfl : t = t' := Option.some.inj (h.trigger.symm.trans h'.trigger)
  rfl

end Dispatch

/-- What an event starts is a list that has, for each job with a trigger that the event fires and
in the order of the jobs, the first such trigger with its position. There is only one such list. -/
theorem Spec.dispatch_eq_iff (s : Spec) (e : Event) (ds : List Dispatch) :
    s.dispatch e = ds ↔
      List.Forall₂ (fun j d => d.IsFirst e j) (s.jobs.filter fun j => j.triggers.any (j.firesBy e))
        ds := by
  have hdispatch : List.Forall₂ (fun (j : Job) (d : Dispatch) => d.IsFirst e j)
      (s.jobs.filter fun j => j.triggers.any (j.firesBy e)) (s.dispatch e) := by
    refine forall₂_filter_filterMap (fun j => ?_) (fun j d hd => ?_) s.jobs
    · rw [Option.isSome_map, Job.isSome_matchedTrigger?]
    · obtain ⟨⟨i, t⟩, hm, rfl⟩ := Option.map_eq_some_iff.mp hd
      exact Dispatch.isFirst_iff.mpr ⟨rfl, hm⟩
  -- A second such list is the same one, as each of its entries is determined by its job.
  refine ⟨fun h => h ▸ hdispatch, fun h => ?_⟩
  exact Relator.RightUnique.forall₂ (fun _ _ _ h h' => h.unique h') hdispatch h

end Pipeline
