import Mathlib.Data.List.Infix
import Pipeline.Proofs.Dispatch.Firing
import Pipeline.Proofs.Graph.Order

/-!
# Which kind of trigger an event fires

* `Event.Inert`: the events that start no job of any specification.
* `Event.answer?`: the one kind of trigger that an event can fire.
* `Trigger.answer?_of_fires`: a trigger that is fired is of this kind, and the event is not inert.
* `Event.exists_fires_of_not_inert`: every other event fires some trigger.
* `Spec.dispatch_confined`: the same for what an event starts in a specification.
-/

namespace Pipeline

/-- The id of a commit that there is not: all digits are zeros, however many there are. -/
def CommitId.IsMissing (c : CommitId) : Prop := ∀ d ∈ c.text.toList, d = '0'

theorem CommitId.isZero_iff {c : CommitId} : c.isZero = true ↔ c.IsMissing := by
  simp [isZero, IsMissing]

theorem CommitId.isZero_eq_false_iff {c : CommitId} : c.isZero = false ↔ ¬ c.IsMissing := by
  rw [← isZero_iff, Bool.not_eq_true]

namespace Event

/-! ## References -/

/-- The reference is a branch. -/
def IsBranch (refName : String) : Prop := branchStart.toList <+: refName.toList

/-- The reference is a tag. -/
def IsTag (refName : String) : Prop := tagStart.toList <+: refName.toList

instance (refName : String) : Decidable (IsBranch refName) :=
  inferInstanceAs (Decidable (branchStart.toList <+: refName.toList))

instance (refName : String) : Decidable (IsTag refName) :=
  inferInstanceAs (Decidable (tagStart.toList <+: refName.toList))

variable {refName : String}

theorem exists_branch_iff :
    (∃ branch, Text.dropStart? branchStart refName = some branch) ↔ IsBranch refName := by
  rw [IsBranch, ← Text.isSome_afterStart?_iff, ← Option.isSome_iff_exists, Text.dropStart?,
    Option.isSome_map]

theorem exists_tag_iff :
    (∃ tag, Text.dropStart? tagStart refName = some tag) ↔ IsTag refName := by
  rw [IsTag, ← Text.isSome_afterStart?_iff, ← Option.isSome_iff_exists, Text.dropStart?,
    Option.isSome_map]

/-- A tag is no branch: neither start begins with the other one. -/
theorem IsTag.not_isBranch (h : IsTag refName) : ¬ IsBranch refName := by
  intro hb
  rcases List.prefix_or_prefix_of_prefix hb h with hp | hp
  · exact absurd hp (by decide)
  · exact absurd hp (by decide)

/-! ## Kinds -/

/-- What starts no job: a start by hand, a reference that is deleted, one that is neither a branch
nor a tag, and a tag that is moved. -/
def Inert : Event → Prop
  | .manual _ => True
  | .refUpdated refName oldCommit newCommit _ =>
    newCommit.IsMissing ∨ (¬ IsBranch refName ∧ ¬ IsTag refName) ∨
      (IsTag refName ∧ ¬ oldCommit.IsMissing)
  | .pullRequest .. | .buildFinished .. | .scheduledTimeReached .. => False

/-- The kind of the triggers that an event is for. -/
def answer? : Event → Option String
  | .refUpdated refName .. =>
    if IsBranch refName then some "branch_update"
    else if IsTag refName then some "tag_create"
    else none
  | .pullRequest .. => some "pull_request"
  | .buildFinished .. => some "dependency_finished"
  | .scheduledTimeReached .. => some "schedule"
  | .manual _ => none

end Event

theorem Trigger.answer?_of_fires {t : Trigger} {dependencies : List String} {e : Event}
    (h : t.fires dependencies e = true) : e.answer? = some t.kind ∧ ¬ e.Inert := by
  cases e with
  | refUpdated refName oldCommit newCommit changedFiles =>
    obtain ⟨hnew, hbranch | htag⟩ := fires_refUpdated_iff.mp h
    · obtain ⟨branches, paths, branch, rfl, hb, -, -⟩ := hbranch
      have hb : Event.IsBranch refName := Event.exists_branch_iff.mp ⟨branch, hb⟩
      have ht : ¬ Event.IsTag refName := fun ht => ht.not_isBranch hb
      have hnew := CommitId.isZero_eq_false_iff.mp hnew
      exact ⟨by simp [Event.answer?, hb, kind], by simp [Event.Inert, hnew, hb, ht]⟩
    · obtain ⟨tags, tag, rfl, ht, hold, -⟩ := htag
      have ht : Event.IsTag refName := Event.exists_tag_iff.mp ⟨tag, ht⟩
      have hnew := CommitId.isZero_eq_false_iff.mp hnew
      have hold := CommitId.isZero_iff.mp hold
      exact ⟨by simp [Event.answer?, ht, ht.not_isBranch, kind],
        by simp [Event.Inert, hnew, ht, hold]⟩
  | pullRequest action sourceBranch targetBranch changedFiles =>
    obtain ⟨branches, paths, actions, rfl, -⟩ := fires_pullRequest_iff.mp h
    exact ⟨rfl, not_false⟩
  | buildFinished jobName status refName =>
    obtain ⟨requireSuccessful, rfl, -⟩ := fires_buildFinished_iff.mp h
    exact ⟨rfl, not_false⟩
  | scheduledTimeReached cronExpression branch =>
    obtain ⟨cronExpression, branches, rfl, -⟩ := fires_scheduledTimeReached_iff.mp h
    exact ⟨rfl, not_false⟩
  | manual user =>
    rw [fires_manual] at h
    cases h

/-- Any other event fires the trigger of its kind that chooses everything. -/
theorem Event.exists_fires_of_not_inert {e : Event} (h : ¬ e.Inert) :
    ∃ t dependencies, Trigger.fires t dependencies e = true := by
  cases e with
  | refUpdated refName oldCommit newCommit changedFiles =>
    simp only [Inert, not_or, not_and_or, not_not] at h
    obtain ⟨hnew, href, hold⟩ := h
    have hnew := CommitId.isZero_eq_false_iff.mpr hnew
    by_cases ht : IsTag refName
    · obtain ⟨tag, htag⟩ := exists_tag_iff.mpr ht
      have hold := CommitId.isZero_iff.mpr (hold.resolve_left fun hn => hn ht)
      exact ⟨.tagCreate [], [], Trigger.fires_refUpdated_iff.mpr
        ⟨hnew, .inr ⟨[], tag, rfl, htag, hold, rfl⟩⟩⟩
    · obtain ⟨branch, hbranch⟩ := exists_branch_iff.mpr (href.resolve_right ht)
      exact ⟨.branchUpdate [] [], [], Trigger.fires_refUpdated_iff.mpr
        ⟨hnew, .inl ⟨[], [], branch, rfl, hbranch, rfl, rfl⟩⟩⟩
  | pullRequest action sourceBranch targetBranch changedFiles =>
    exact ⟨.pullRequest [] [] [action], [], Trigger.fires_pullRequest_iff.mpr
      ⟨[], [], [action], rfl, by simp, rfl, rfl⟩⟩
  | buildFinished jobName status refName =>
    exact ⟨.dependencyFinished false, [jobName], Trigger.fires_buildFinished_iff.mpr
      ⟨false, rfl, by simp, by simp⟩⟩
  | scheduledTimeReached cronExpression branch =>
    exact ⟨.schedule cronExpression [], [], Trigger.fires_scheduledTimeReached_iff.mpr
      ⟨cronExpression, [], rfl, rfl, rfl⟩⟩
  | manual user => exact absurd trivial h

namespace Spec

variable {e : Event}

/-- A job whose only trigger an event fires, if it depends on the given jobs. -/
theorem exists_dispatch_ne_nil {t : Trigger} {dependencies : List String}
    (h : t.fires dependencies e = true) : ∃ s : Spec, s.dispatch e ≠ [] := by
  let j : Job := { Job.waitingFor "" dependencies with triggers := [t] }
  have hdep : j.dependencyNames = dependencies := by
    simp [j, Job.dependencyNames, Job.waitingFor, JobDependency.ofName, Function.comp_def]
  have hf : j.firesBy e t = true := by rwa [Job.firesBy, hdep]
  obtain ⟨d, hd, -⟩ : ∃ d ∈ (ofJobs [j]).dispatch e, d.jobName = j.name :=
    exists_mem_dispatch List.mem_cons_self List.mem_cons_self hf
  exact ⟨_, List.ne_nil_of_mem hd⟩

/-- The events that never start anything are the inert ones. What any other event starts is
started by a trigger of the one kind that the event is for. -/
theorem dispatch_confined (e : Event) :
    ((∀ s : Spec, s.dispatch e = []) ↔ e.Inert) ∧
      ∀ s : Spec, ∀ d ∈ s.dispatch e, e.answer? = some d.trigger.kind := by
  have hfires {s : Spec} {d : Dispatch} (hd : d ∈ s.dispatch e) :
      e.answer? = some d.trigger.kind ∧ ¬ e.Inert := by
    obtain ⟨j, -, -, hm⟩ := mem_dispatch.mp hd
    exact Trigger.answer?_of_fires (Job.getElem?_of_matchedTrigger? hm).2
  refine ⟨⟨fun h => ?_, fun h s => ?_⟩, fun s d hd => (hfires hd).1⟩
  · by_contra hi
    obtain ⟨t, dependencies, ht⟩ := Event.exists_fires_of_not_inert hi
    obtain ⟨s, hs⟩ := exists_dispatch_ne_nil ht
    exact hs (h s)
  · exact List.eq_nil_iff_forall_not_mem.mpr fun d hd => (hfires hd).2 h

/-- A job with a trigger of every kind, each of which chooses everything. -/
def eager : Spec :=
  .ofJobs [{ Job.waitingFor "all" ["build"] with
    triggers := [.branchUpdate [] [], .tagCreate [], .pullRequest [] [] [],
      .dependencyFinished false, .schedule "@daily" []] }]

end Spec

namespace Event

/-- A branch is deleted. The id of the commit that there is not is an abbreviated one. -/
def deletion : Event :=
  .refUpdated "refs/heads/main" ⟨"1a2b", by decide⟩ ⟨"0000000", by decide⟩ []

/-- A tag is created. -/
def newTag : Event := .refUpdated "refs/tags/v1" .zero ⟨"1a2b", by decide⟩ []

end Event

theorem Spec.dispatch_confined_eager :
    Event.deletion.Inert ∧ eager.dispatch .deletion = [] ∧
    ⟨"all", 1, .tagCreate []⟩ ∈ eager.dispatch .newTag ∧
    Event.newTag.answer? = some (Trigger.tagCreate []).kind := by
  have hi : Event.deletion.Inert := .inl (CommitId.isZero_iff.mp (by decide))
  have hd : ⟨"all", 1, .tagCreate []⟩ ∈ eager.dispatch .newTag := by
    have : eager.dispatch .newTag = [⟨"all", 1, .tagCreate []⟩] := by cbv
    simp [this]
  exact ⟨hi, (dispatch_confined .deletion).1.mpr hi eager, hd,
    (dispatch_confined .newTag).2 eager _ hd⟩

end Pipeline
