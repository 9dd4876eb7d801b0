import Mathlib.Data.List.Forall2
import Pipeline.Proofs.Cron.Search
import Pipeline.Proofs.Dispatch.Firing
import Pipeline.Proofs.Graph.Order
import Pipeline.Proofs.WellFormed.Spec
import Pipeline.Upcoming

/-!
# What is announced is what fires

* `Glob.StandsFor`: a list of patterns is matched without leaving one out.
* `Trigger.WellFormed.standsFor`: so it is for every list of a well-formed trigger.
* `Fire.of_ofTrigger?`, `Fire.firesAt_eq_false_of_ofTrigger?`: the next time of a trigger is the
  first one at which its schedule fires, and it has none only if the schedule does not fire again.
* `Fire.IsKept`: an entry of an announcement is such a time, and the job is started at it.
* `Spec.upcoming_kept`: what a specification announces it also does.
-/

namespace Pipeline

namespace Glob

/-! ## Patterns -/

/-- What is read from each pattern of a list. -/
def AreRead (patterns : List String) (read : List Pattern) : Prop :=
  List.Forall₂ (fun pattern p => ofText pattern = .ok p) patterns read

/-- Texts are chosen by a list of patterns as by what is read from each of them. -/
structure StandsFor (patterns : List String) (read : List Pattern) : Prop where
  each : AreRead patterns read
  matchesAny : ∀ text, Glob.matchesAny patterns text =
    (read.isEmpty || read.any fun p => p.accepts text)
  touchesAny : ∀ files, Glob.touchesAny patterns files =
    (read.isEmpty || files.any fun f => read.any fun p => p.accepts f)

variable {patterns : List String} {read : List Pattern}

theorem exists_areRead (h : ∀ p ∈ patterns, Readable p) : ∃ read, AreRead patterns read := by
  induction patterns with
  | nil => exact ⟨[], .nil⟩
  | cons pattern patterns ih =>
    obtain ⟨p, hp⟩ := h pattern List.mem_cons_self
    obtain ⟨read, hread⟩ := ih fun q hq => h q (List.mem_cons_of_mem _ hq)
    exact ⟨p :: read, .cons hp hread⟩

namespace AreRead

theorem isEmpty_eq (h : AreRead patterns read) : patterns.isEmpty = read.isEmpty := by
  cases h <;> rfl

theorem any_accepts (h : AreRead patterns read) (text : String) :
    (patterns.any fun p => accepts p text) = read.any fun p => p.accepts text := by
  induction h with
  | nil => rfl
  | cons hp _ ih => rw [List.any_cons, List.any_cons, ih, accepts, hp]

theorem standsFor (h : AreRead patterns read) : StandsFor patterns read := by
  refine ⟨h, fun text => ?_, fun files => ?_⟩
  · rw [Glob.matchesAny, h.isEmpty_eq, h.any_accepts]
  · simp only [Glob.touchesAny, h.isEmpty_eq, h.any_accepts]

end AreRead

end Glob

namespace Trigger

/-- The lists of patterns of a trigger. -/
def patternLists : Trigger → List (List String)
  | .branchUpdate branches paths => [branches, paths]
  | .tagCreate tags => [tags]
  | .pullRequest branches paths _ => [branches, paths]
  | .dependencyFinished _ => []
  | .schedule _ branches => [branches]

variable {t : Trigger}

theorem WellFormed.standsFor (h : t.WellFormed) :
    ∀ patterns ∈ t.patternLists, ∃ read, Glob.StandsFor patterns read := by
  intro patterns hp
  suffices hr : ∀ p ∈ patterns, Glob.Readable p from
    (Glob.exists_areRead hr).imp fun _ => Glob.AreRead.standsFor
  cases t with
  | branchUpdate | pullRequest =>
    rcases List.mem_pair.mp hp with rfl | rfl
    · exact h.1
    · exact h.2
  | tagCreate =>
    obtain rfl := List.mem_singleton.mp hp
    exact h
  | dependencyFinished => cases hp
  | schedule =>
    obtain rfl := List.mem_singleton.mp hp
    exact h.2

/-! ## Times -/

theorem schedule?_eq_some_iff {s : Cron.Schedule} :
    t.schedule? = some s ↔ ∃ cronExpression branches, t = .schedule cronExpression branches ∧
      Cron.Schedule.ofText cronExpression = .ok s := by
  cases t with
  | schedule cronExpression branches =>
    cases h : Cron.Schedule.ofText cronExpression <;> simp [schedule?, h, Except.toOption]
  | _ => simp [schedule?]

theorem WellFormed.exists_schedule? {cronExpression : String} {branches : List String}
    (h : (schedule cronExpression branches).WellFormed) :
    ∃ s, (schedule cronExpression branches).schedule? = some s := by
  obtain ⟨s, hs⟩ := h.1.2
  exact ⟨s, schedule?_eq_some_iff.mpr ⟨_, _, rfl, hs⟩⟩

theorem regular_of_schedule? {s : Cron.Schedule} (h : t.schedule? = some s) : s.Regular := by
  obtain ⟨_, _, -, hs⟩ := schedule?_eq_some_iff.mp h
  exact .of_ofText hs

theorem head?_fireTimes {after : Instant} :
    (t.fireTimes after 1).head? = t.schedule?.bind fun s => s.next? (after.seconds + 1).toNat := by
  unfold fireTimes
  cases t.schedule? with
  | none => rfl
  | some s =>
    simp only [Option.bind_some, Cron.Schedule.timesAfter, Cron.Schedule.times]
    cases s.next? (after.seconds + 1).toNat <;> rfl

end Trigger

/-- The whole seconds after a point in time are those from the next one on. -/
theorem Instant.toNat_le_iff {after : Instant} {second : Nat} :
    (after.seconds + 1).toNat ≤ second ↔ after.seconds < second := by
  omega

namespace Fire

variable {f : Fire} {name : String} {after : Instant} {t : Trigger} {s : Cron.Schedule}

theorem ofTrigger?_eq (h : t.schedule? = some s) :
    ∃ cronExpression branches, t = .schedule cronExpression branches ∧
      ofTrigger? name after t =
        (s.next? (after.seconds + 1).toNat).map fun time => ⟨name, cronExpression, time⟩ := by
  obtain ⟨cronExpression, branches, rfl, hs⟩ := Trigger.schedule?_eq_some_iff.mp h
  refine ⟨cronExpression, branches, rfl, ?_⟩
  simp only [ofTrigger?]
  rw [Trigger.head?_fireTimes, h, Option.bind_some]

/-- The next time of a trigger is the first one at which its schedule fires. -/
theorem of_ofTrigger? (h : ofTrigger? name after t = some f) :
    f.jobName = name ∧ ∃ branches s, t = .schedule f.cronExpression branches ∧
      Cron.Schedule.ofText f.cronExpression = .ok s ∧
      IsLeast {second : Nat | after.seconds < second ∧ s.firesAt second = true} f.time := by
  cases t with
  | schedule cronExpression branches =>
    obtain ⟨time, ht, rfl⟩ := Option.map_eq_some_iff.mp h
    rw [Trigger.head?_fireTimes] at ht
    obtain ⟨s, hs, hn⟩ := Option.bind_eq_some_iff.mp ht
    have hleast := (Trigger.regular_of_schedule? hs).isLeast_of_next? hn
    simp only [Instant.toNat_le_iff] at hleast
    obtain ⟨_, _, he, ho⟩ := Trigger.schedule?_eq_some_iff.mp hs
    cases he
    exact ⟨rfl, branches, s, rfl, ho, hleast⟩
  | _ => cases h

/-- A trigger without a next time has a schedule that does not fire again. -/
theorem firesAt_eq_false_of_ofTrigger? (hs : t.schedule? = some s)
    (h : ofTrigger? name after t = none) {second : Nat} (ha : after.seconds < second) :
    s.firesAt second = false := by
  obtain ⟨_, _, -, he⟩ := @ofTrigger?_eq name after t s hs
  rw [he, Option.map_eq_none_iff] at h
  exact (Trigger.regular_of_schedule? hs).firesAt_eq_false_of_next? h (Instant.toNat_le_iff.mpr ha)

/-- An entry is the next time of a trigger of a job. When that time is reached for a branch which
the trigger is for, the job is started. -/
def IsKept (f : Fire) (s : Spec) (after : Instant) : Prop :=
  ∃ j ∈ s.jobs, j.name = f.jobName ∧ ∃ branches schedule,
    .schedule f.cronExpression branches ∈ j.triggers ∧
    Cron.Schedule.ofText f.cronExpression = .ok schedule ∧
    IsLeast {second : Nat | after.seconds < second ∧ schedule.firesAt second = true} f.time ∧
    ∀ branch, Glob.matchesAny branches branch = true →
      ∃ d ∈ s.dispatch (.scheduledTimeReached f.cronExpression branch), d.jobName = f.jobName

end Fire

namespace Spec

variable {s : Spec} {after : Instant}

theorem upcoming_perm : (s.upcoming after).Perm (s.fires after) := List.mergeSort_perm _ _

theorem mem_upcoming {f : Fire} :
    f ∈ s.upcoming after ↔
      ∃ j ∈ s.jobs, ∃ t ∈ j.triggers, Fire.ofTrigger? j.name after t = some f := by
  rw [upcoming_perm.mem_iff, fires]
  simp only [List.mem_flatMap, List.mem_filterMap]

theorem isKept_of_mem_upcoming {f : Fire} (h : f ∈ s.upcoming after) : f.IsKept s after := by
  obtain ⟨j, hj, t, ht, hf⟩ := mem_upcoming.mp h
  obtain ⟨hname, branches, schedule, rfl, hs, hleast⟩ := Fire.of_ofTrigger? hf
  refine ⟨j, hj, hname.symm, branches, schedule, ht, hs, hleast, fun branch hb => ?_⟩
  have hfires : j.firesBy (.scheduledTimeReached f.cronExpression branch)
      (.schedule f.cronExpression branches) = true :=
    Trigger.fires_scheduledTimeReached_iff.mpr ⟨_, _, rfl, rfl, hb⟩
  rw [hname]
  exact exists_mem_dispatch hj ht hfires

/-- What a specification announces it also does. The announcement has an entry for each trigger with
a next time; if the specification has no problems, a trigger for times is left out only if it does
not fire again, and no pattern of any trigger is ignored. -/
theorem upcoming_kept (s : Spec) (after : Instant) :
    (∀ f ∈ s.upcoming after, f.IsKept s after) ∧
    (s.upcoming after).Perm
      (s.jobs.flatMap fun j => j.triggers.filterMap (Fire.ofTrigger? j.name after)) ∧
    (s.violations = [] → ∀ j ∈ s.jobs, ∀ t ∈ j.triggers,
      (∀ patterns ∈ t.patternLists, ∃ read, Glob.StandsFor patterns read) ∧
      ∀ cronExpression branches, t = .schedule cronExpression branches →
        ∃ schedule, t.schedule? = some schedule ∧
          (Fire.ofTrigger? j.name after t = none →
            ∀ second : Nat, after.seconds < second → schedule.firesAt second = false)) := by
  refine ⟨fun f => isKept_of_mem_upcoming, upcoming_perm, fun hv j hj t ht => ?_⟩
  have hwf : t.WellFormed := ((passes_check_iff.mp hv).1 j hj).triggers t ht
  refine ⟨hwf.standsFor, ?_⟩
  rintro cronExpression branches rfl
  obtain ⟨schedule, hs⟩ := hwf.exists_schedule?
  exact ⟨schedule, hs, fun hn second => Fire.firesAt_eq_false_of_ofTrigger? hs hn⟩

/-- A job that is started every night on some branches, and one that is started on each 30th of
February. -/
def nightly : Spec :=
  .ofJobs [{ Job.waitingFor "nightly" [] with
      triggers := [.schedule "0 30  2 * * *" ["main", "release/*"]] },
    { Job.waitingFor "never" [] with triggers := [.schedule "0 0 0 30 2 *" []] }]

/-- Two days before the end of the year 2100. -/
def lastDays : Instant := ⟨4133808000, 500000000⟩

theorem upcoming_kept_nightly :
    nightly.violations = [] ∧
    ⟨"nightly", "0 30  2 * * *", 4133817000⟩ ∈ nightly.upcoming lastDays ∧
    (∃ d ∈ nightly.dispatch (.scheduledTimeReached "0 30  2 * * *" "release/2"),
      d.jobName = "nightly") ∧
    ∃ schedule, (Trigger.schedule "0 0 0 30 2 *" []).schedule? = some schedule ∧
      ∀ second : Nat, lastDays.seconds < second → schedule.firesAt second = false := by
  obtain ⟨hkept, -, hvalid⟩ := upcoming_kept nightly lastDays
  have hv : nightly.violations = [] := by decide +kernel
  have hf : ⟨"nightly", "0 30  2 * * *", 4133817000⟩ ∈ nightly.upcoming lastDays :=
    mem_upcoming.mpr ⟨_, List.mem_cons_self, _, List.mem_cons_self, by decide +kernel⟩
  refine ⟨hv, hf, ?_, ?_⟩
  · obtain ⟨j, hj, hn, branches, _, ht, -, -, hd⟩ := hkept _ hf
    rcases List.mem_pair.mp hj with rfl | rfl
    · obtain ⟨-, rfl⟩ := Trigger.schedule.inj (List.mem_singleton.mp ht)
      exact hd "release/2" (by decide +kernel)
    · exact absurd hn (by decide)
  · obtain ⟨-, hskip⟩ :=
      hvalid hv _ (List.mem_cons_of_mem _ List.mem_cons_self) _ List.mem_cons_self
    obtain ⟨schedule, hs, hnone⟩ := hskip _ _ rfl
    exact ⟨schedule, hs, hnone (by decide +kernel)⟩

end Spec

end Pipeline
