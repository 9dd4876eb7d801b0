import Mathlib.Data.List.Basic
import Mathlib.Logic.Basic
import Mathlib.Order.Bounds.Basic
import Pipeline.Dispatch

/-!
# What an event starts

* `Trigger.fires_refUpdated_iff`, `Trigger.fires_pullRequest_iff`,
  `Trigger.fires_buildFinished_iff`, `Trigger.fires_scheduledTimeReached_iff`,
  `Trigger.fires_manual`: the triggers that an event of each kind fires, and the conditions under
  which it does.
* `Job.matchedTrigger?_eq_some_iff`: the trigger that is reported is the one at the least of the
  positions of the triggers that are fired, `Job.firedAt`.
* `Job.getElem?_of_matchedTrigger?`: so it is one of the job, at the position that is reported, and
  it is fired.
* `Spec.mem_dispatch`: the jobs that an event starts are those with such a trigger.
* `Spec.exists_mem_dispatch`: every job with a trigger that is fired is among them.
-/

namespace Pipeline

namespace Trigger

/-- A reference to a commit fires the triggers for branches if it is a branch. It fires those for
tags if it is a tag that there was not before. -/
theorem fires_refUpdated_iff {t : Trigger} {dependencies : List String} {refName : String}
    {oldCommit newCommit : CommitId} {changedFiles : List String} :
    t.fires dependencies (.refUpdated refName oldCommit newCommit changedFiles) = true ↔
      newCommit.isZero = false ∧
      ((∃ branches paths branch, t = .branchUpdate branches paths ∧
          Text.dropStart? Event.branchStart refName = some branch ∧
          Glob.matchesAny branches branch = true ∧ Glob.touchesAny paths changedFiles = true) ∨
        ∃ tags tag, t = .tagCreate tags ∧ Text.dropStart? Event.tagStart refName = some tag ∧
          oldCommit.isZero = true ∧ Glob.matchesAny tags tag = true) := by
  cases t with
  | branchUpdate branches paths =>
    cases hb : Text.dropStart? Event.branchStart refName <;>
      simp [fires, Event.updatedBranch?, hb, and_assoc]
  | tagCreate tags =>
    cases ht : Text.dropStart? Event.tagStart refName <;>
      simp [fires, Event.updatedTag?, ht, and_assoc, and_left_comm]
  | _ => simp [fires]

/-- A change of a pull request fires the triggers for pull requests that ask for it, or that ask
for no particular change if it is one of the standard ones. -/
theorem fires_pullRequest_iff {t : Trigger} {dependencies : List String}
    {action : PullRequestAction} {sourceBranch targetBranch : String}
    {changedFiles : List String} :
    t.fires dependencies (.pullRequest action sourceBranch targetBranch changedFiles) = true ↔
      ∃ branches paths actions, t = .pullRequest branches paths actions ∧
        action ∈ (if actions.isEmpty then standardActions else actions) ∧
        Glob.matchesAny branches targetBranch = true ∧
        Glob.touchesAny paths changedFiles = true := by
  cases t with
  | pullRequest branches paths actions => simp [fires, and_assoc]
  | _ => simp [fires]

/-- The end of a build starts the jobs that depend on it, and asks for such a trigger. -/
theorem fires_buildFinished_iff {t : Trigger} {dependencies : List String} {job : String}
    {status : BuildStatus} {refName : Option String} :
    t.fires dependencies (.buildFinished job status refName) = true ↔
      ∃ requireSuccessful, t = .dependencyFinished requireSuccessful ∧ job ∈ dependencies ∧
        (requireSuccessful = true → status = .successful) := by
  cases t with
  | dependencyFinished requireSuccessful => cases requireSuccessful <;> simp [fires]
  | _ => simp [fires]

/-- A scheduled time fires the triggers whose expression has the same words. -/
theorem fires_scheduledTimeReached_iff {t : Trigger} {dependencies : List String}
    {fired branch : String} :
    t.fires dependencies (.scheduledTimeReached fired branch) = true ↔
      ∃ cronExpression branches, t = .schedule cronExpression branches ∧
        Text.joinWords cronExpression = Text.joinWords fired ∧
        Glob.matchesAny branches branch = true := by
  cases t with
  | schedule cronExpression branches => simp [fires]
  | _ => simp [fires]

theorem fires_manual {t : Trigger} {dependencies : List String} {user : Option String} :
    t.fires dependencies (.manual user) = false := by
  cases t <;> rfl

end Trigger

namespace Job

variable {j : Job} {e : Event} {i : Nat} {t : Trigger}

/-- The positions of the triggers of a job that an event fires. -/
def firedAt (j : Job) (e : Event) : Set Nat :=
  {i | ∃ t, j.triggers[i]? = some t ∧ j.firesBy e t = true}

/-- The trigger that is reported is the first one that is fired. -/
theorem matchedTrigger?_eq_some_iff :
    j.matchedTrigger? e = some (i, t) ↔
      IsLeast (j.firedAt e) i ∧ j.triggers[i]? = some t := by
  have hfind : j.matchedTrigger? e = some (i, t) ↔
      j.triggers.zipIdx.find? (fun p => j.firesBy e p.1) = some (t, i) := by
    simp [matchedTrigger?]
  rw [hfind, List.find?_eq_some_iff_getElem]
  constructor
  · rintro ⟨hf, k, hk, he, hbefore⟩
    simp only [List.getElem_zipIdx, Nat.zero_add, Prod.mk.injEq] at he
    obtain ⟨ht, rfl⟩ := he
    have ht : j.triggers[k]? = some t := List.getElem?_eq_some_iff.mpr ⟨_, ht⟩
    refine ⟨⟨⟨t, ht, hf⟩, ?_⟩, ht⟩
    rintro m ⟨u, hu, hfu⟩
    by_contra hlt
    obtain ⟨hm, rfl⟩ := List.getElem?_eq_some_iff.mp hu
    have hn := hbefore m (Nat.lt_of_not_le hlt)
    simp only [List.getElem_zipIdx, hfu] at hn
    cases hn
  · rintro ⟨⟨⟨u, hu, hf⟩, hleast⟩, ht⟩
    obtain rfl : u = t := Option.some.inj (hu.symm.trans ht)
    obtain ⟨hi, hget⟩ := List.getElem?_eq_some_iff.mp ht
    refine ⟨hf, i, by simpa using hi, by simp [hget], fun m hm => ?_⟩
    have hn : j.firesBy e j.triggers[m] ≠ true := fun hfm =>
      Nat.not_le_of_lt hm (hleast ⟨_, List.getElem?_eq_getElem (Nat.lt_trans hm hi), hfm⟩)
    simpa using hn

theorem getElem?_of_matchedTrigger? (h : j.matchedTrigger? e = some (i, t)) :
    j.triggers[i]? = some t ∧ j.firesBy e t = true := by
  obtain ⟨⟨⟨u, hu, hf⟩, -⟩, ht⟩ := matchedTrigger?_eq_some_iff.mp h
  obtain rfl : u = t := Option.some.inj (hu.symm.trans ht)
  exact ⟨ht, hf⟩

/-- A job with a trigger that is fired, and no other, has a first such trigger. -/
theorem isSome_matchedTrigger? :
    (j.matchedTrigger? e).isSome = j.triggers.any (j.firesBy e) := by
  rw [matchedTrigger?, Option.isSome_map, Bool.eq_iff_iff, List.find?_isSome, List.any_eq_true]
  constructor
  · rintro ⟨⟨t, i⟩, hmem, hf⟩
    exact ⟨t, List.fst_mem_of_mem_zipIdx hmem, hf⟩
  · rintro ⟨t, ht, hf⟩
    obtain ⟨i, hi⟩ := List.getElem?_of_mem ht
    exact ⟨(t, i), List.mem_zipIdx_iff_getElem?.mpr hi, hf⟩

theorem exists_matchedTrigger? (ht : t ∈ j.triggers) (hf : j.firesBy e t = true) :
    ∃ i u, j.matchedTrigger? e = some (i, u) := by
  have hsome : (j.matchedTrigger? e).isSome = true := by
    rw [isSome_matchedTrigger?, List.any_eq_true]
    exact ⟨t, ht, hf⟩
  obtain ⟨⟨i, u⟩, hu⟩ := Option.isSome_iff_exists.mp hsome
  exact ⟨i, u, hu⟩

end Job

theorem Spec.mem_dispatch {s : Spec} {e : Event} {d : Dispatch} :
    d ∈ s.dispatch e ↔ ∃ j ∈ s.jobs, d.jobName = j.name ∧
      j.matchedTrigger? e = some (d.triggerIndex, d.trigger) := by
  simp only [dispatch, List.mem_filterMap, Option.map_eq_some_iff, Prod.exists]
  constructor
  · rintro ⟨j, hj, i, t, hm, rfl⟩
    exact ⟨j, hj, rfl, hm⟩
  · rintro ⟨j, hj, hn, hm⟩
    exact ⟨j, hj, _, _, hm, by rw [← hn]⟩

/-- An event that fires a trigger of a job starts the job. -/
theorem Spec.exists_mem_dispatch {s : Spec} {e : Event} {j : Job} {t : Trigger}
    (hj : j ∈ s.jobs) (ht : t ∈ j.triggers) (hf : j.firesBy e t = true) :
    ∃ d ∈ s.dispatch e, d.jobName = j.name := by
  obtain ⟨i, u, hm⟩ := Job.exists_matchedTrigger? ht hf
  exact ⟨⟨j.name, i, u⟩, mem_dispatch.mpr ⟨j, hj, rfl, hm⟩, rfl⟩

end Pipeline
