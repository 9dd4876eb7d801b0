import Pipeline.Proofs.Dispatch.FirstMatch
import Pipeline.Proofs.Graph.Order

/-!
# More changed files

An empty list of patterns chooses everything, and a malformed pattern nothing. Still a trigger that
an event fires is fired as well by an event that tells of more files.

* `Event.Within`: two events that are equal but for the files, of which the second one has more.
* `Glob.touchesAny_mono`, `Trigger.fires_mono`, `Job.firedAt_mono`: what more files do to a list of
  patterns, to a trigger, and to the triggers of a job.
* `sublistForall₂_filterMap`: what `filterMap` keeps of a list for one function and for another one
  that keeps more.
* `Spec.dispatch_mono`: what an event starts is also started if there are more files, and by no
  later trigger.
-/

namespace Pipeline

/-- Two events are equal but for the files that were changed, and every file of the first one is
also one of the second. -/
inductive Event.Within : Event → Event → Prop
  | refUpdated {refName : String} {oldCommit newCommit : CommitId} {files more : List String}
      (h : files ⊆ more) :
      Within (.refUpdated refName oldCommit newCommit files)
        (.refUpdated refName oldCommit newCommit more)
  | pullRequest {action : PullRequestAction} {sourceBranch targetBranch : String}
      {files more : List String} (h : files ⊆ more) :
      Within (.pullRequest action sourceBranch targetBranch files)
        (.pullRequest action sourceBranch targetBranch more)

/-- The files are asked for one by one, so an empty list of patterns and a malformed pattern make no
difference. -/
theorem Glob.touchesAny_mono {patterns files more : List String} (h : files ⊆ more)
    (ht : touchesAny patterns files = true) : touchesAny patterns more = true := by
  rw [touchesAny, Bool.or_eq_true, List.any_eq_true] at ht ⊢
  exact ht.imp_right fun ⟨f, hf, hp⟩ => ⟨f, h hf, hp⟩

variable {e e' : Event}

theorem Trigger.fires_mono {t : Trigger} {dependencies : List String} (h : e.Within e')
    (hf : t.fires dependencies e = true) : t.fires dependencies e' = true := by
  cases h with
  | refUpdated hsub =>
    rw [fires_refUpdated_iff] at hf ⊢
    refine hf.imp_right (Or.imp_left ?_)
    rintro ⟨branches, paths, branch, rfl, hb, hm, ht⟩
    exact ⟨branches, paths, branch, rfl, hb, hm, Glob.touchesAny_mono hsub ht⟩
  | pullRequest hsub =>
    rw [fires_pullRequest_iff] at hf ⊢
    obtain ⟨branches, paths, actions, rfl, ha, hm, ht⟩ := hf
    exact ⟨branches, paths, actions, rfl, ha, hm, Glob.touchesAny_mono hsub ht⟩

namespace Job

theorem firedAt_mono (j : Job) (h : e.Within e') : j.firedAt e ⊆ j.firedAt e' := by
  rintro i ⟨t, ht, hf⟩
  exact ⟨t, ht, Trigger.fires_mono h hf⟩

/-- A job that is started is started by a trigger that stands no later if there are more files. -/
theorem matchedTrigger?_mono {j : Job} {i : Nat} {t : Trigger} (h : e.Within e')
    (hm : j.matchedTrigger? e = some (i, t)) :
    ∃ i' t', j.matchedTrigger? e' = some (i', t') ∧ i' ≤ i := by
  obtain ⟨hleast, -⟩ := matchedTrigger?_eq_some_iff.mp hm
  obtain ⟨ht, hf⟩ := getElem?_of_matchedTrigger? hm
  obtain ⟨i', t', hm'⟩ :=
    exists_matchedTrigger? (List.mem_of_getElem? ht) (Trigger.fires_mono h hf)
  obtain ⟨hleast', -⟩ := matchedTrigger?_eq_some_iff.mp hm'
  exact ⟨i', t', hm', hleast.mono hleast' (j.firedAt_mono h)⟩

theorem firesBy_congr (j : Job) (h : e.Within e') (h' : e'.Within e) :
    j.firesBy e = j.firesBy e' :=
  funext fun _ => Bool.eq_iff_iff.mpr ⟨Trigger.fires_mono h, Trigger.fires_mono h'⟩

end Job

/-- If everything that one function keeps of a list has its counterpart in what another one keeps,
then the counterparts are in the same order. -/
theorem sublistForall₂_filterMap {α β : Type} {r : β → β → Prop} {f g : α → Option β} {l : List α}
    (h : ∀ a ∈ l, ∀ b, f a = some b → ∃ c, g a = some c ∧ r b c) :
    List.SublistForall₂ r (l.filterMap f) (l.filterMap g) := by
  induction l with
  | nil => exact .nil
  | cons a l ih =>
    have ih := ih fun x hx => h x (List.mem_cons_of_mem _ hx)
    cases hf : f a with
    | some b =>
      obtain ⟨c, hg, hr⟩ := h a List.mem_cons_self b hf
      rw [List.filterMap_cons_some hf, List.filterMap_cons_some hg]
      exact .cons hr ih
    | none =>
      rw [List.filterMap_cons_none hf]
      cases hg : g a with
      | none => rwa [List.filterMap_cons_none hg]
      | some c =>
        rw [List.filterMap_cons_some hg]
        exact .cons_right ih

namespace Spec

/-- Every job that an event starts is also started if there are more files, in the same order, and
by a trigger that stands no later. The order of the files and how often each is told make no
difference at all. -/
theorem dispatch_mono (s : Spec) (h : e.Within e') :
    List.SublistForall₂ (fun d d' => ∃ j ∈ s.jobs,
        d.IsFirst e j ∧ d'.IsFirst e' j ∧ d'.triggerIndex ≤ d.triggerIndex)
      (s.dispatch e) (s.dispatch e') ∧
    (e'.Within e → s.dispatch e = s.dispatch e') := by
  constructor
  · refine sublistForall₂_filterMap fun j hj d hd => ?_
    obtain ⟨⟨i, t⟩, hm, rfl⟩ := Option.map_eq_some_iff.mp hd
    obtain ⟨i', t', hm', hle⟩ := Job.matchedTrigger?_mono h hm
    exact ⟨⟨j.name, i', t'⟩, by rw [hm']; rfl, j, hj, Dispatch.isFirst_iff.mpr ⟨rfl, hm⟩,
      Dispatch.isFirst_iff.mpr ⟨rfl, hm'⟩, hle⟩
  · intro h'
    simp only [dispatch, Job.matchedTrigger?, Job.firesBy_congr _ h h']

/-- A job that is started by changes of the documentation, or else by changes of the source on the
main branch, for which a malformed pattern is given as well. -/
def layered : Spec :=
  .ofJobs [{ Job.waitingFor "build" [] with
    triggers := [.branchUpdate [] ["docs/**"], .branchUpdate ["main"] ["src/[", "src/*"]] }]

end Spec

/-- The main branch receives a commit that changes the given files. -/
def Event.push (files : List String) : Event :=
  .refUpdated "refs/heads/main" .zero ⟨"3c4d", by decide⟩ files

theorem Spec.dispatch_mono_layered :
    (Event.push ["src/a"]).Within (.push ["src/a", "docs/b/c"]) ∧
    layered.dispatch (.push ["src/a"]) =
      [⟨"build", 1, .branchUpdate ["main"] ["src/[", "src/*"]⟩] ∧
    (∃ d ∈ layered.dispatch (.push ["src/a", "docs/b/c"]), d.jobName = "build" ∧
      d.triggerIndex ≤ 1) ∧
    layered.dispatch (.push ["src/a", "docs/b/c"]) =
      layered.dispatch (.push ["docs/b/c", "src/a", "docs/b/c"]) := by
  have hmore : (Event.push ["src/a"]).Within (.push ["src/a", "docs/b/c"]) :=
    .refUpdated (by simp)
  have hd : layered.dispatch (.push ["src/a"]) =
      [⟨"build", 1, .branchUpdate ["main"] ["src/[", "src/*"]⟩] := by decide +kernel
  refine ⟨hmore, hd, ?_, (dispatch_mono layered (.refUpdated (by simp))).2 (.refUpdated (by simp))⟩
  obtain ⟨ds, hpairs, hsub⟩ := List.sublistForall₂_iff.mp (dispatch_mono layered hmore).1
  rw [hd] at hpairs
  obtain ⟨d, _, ⟨j, -, hj, hj', hle⟩, -, rfl⟩ := List.forall₂_cons_left_iff.mp hpairs
  exact ⟨d, hsub.subset List.mem_cons_self, hj'.jobName.trans hj.jobName.symm, hle⟩

end Pipeline
