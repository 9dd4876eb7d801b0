import Mathlib.Data.List.Sort
import Pipeline.Proofs.Cron.Times
import Pipeline.Proofs.Dispatch.Announcement

/-!
# Scheduled times

* `Instant.Before`: the order of points in time.
* `Trigger.fireTimes_exact`: the times of a trigger are the first ones after a point in time that
  fit its schedule, and a trigger without a schedule has none.
* `Fire.Announced`: the entries of an announcement, in the order in which the triggers are declared.
* `IsStableSort`: a list sorted by a key in which equal keys stay in order.
* `Spec.upcoming_sorted`: an announcement has these entries, sorted by time.
-/

namespace Pipeline

/-! ## Times of a trigger -/

namespace Instant

/-- A point in time lies before another one: in an earlier second, or earlier in the same one. -/
def Before (a b : Instant) : Prop :=
  a.seconds < b.seconds ∨ a.seconds = b.seconds ∧ a.nanos < b.nanos

/-- What lies before the start of a second lies in an earlier one. -/
theorem before_second_iff {after : Instant} {time : Int} :
    after.Before ⟨time, 0⟩ ↔ after.seconds < time := by
  simp [Before]

end Instant

namespace Trigger

variable {t : Trigger} {s : Cron.Schedule} {after : Instant} {count : Nat}

theorem firstTimes_fireTimes (h : t.schedule? = some s) (after : Instant) (count : Nat) :
    Cron.FirstTimes (fun time => after.Before ⟨time, 0⟩ ∧ s.Fits time) count
      (t.fireTimes after count) := by
  have hs := regular_of_schedule? h
  have htimes : t.fireTimes after count = s.times count (after.seconds + 1).toNat := by
    simp only [fireTimes, h, Cron.Schedule.timesAfter]
  rw [htimes]
  refine (hs.firstTimes_times count _).congr fun time => and_congr_left fun hf => ?_
  obtain ⟨n, rfl, -⟩ := hs.exists_natCast_eq hf
  rw [Instant.before_second_iff]
  omega

theorem fireTimes_of_schedule?_eq_none (h : t.schedule? = none) : t.fireTimes after count = [] := by
  simp only [fireTimes, h]

theorem schedule?_eq_none_iff :
    t.schedule? = none ↔ ∀ cronExpression branches, t = .schedule cronExpression branches →
      ∃ e, Cron.Schedule.ofText cronExpression = .error e := by
  cases t with
  | schedule cronExpression branches =>
    cases h : Cron.Schedule.ofText cronExpression <;> simp [schedule?, h, Except.toOption]
  | _ => simp [schedule?]

/-- The times of a trigger for times are the first whole seconds after a point in time that fit its
schedule, in ascending order; none is left out, and there are fewer than asked for only if no
further one comes, at the latest at the end of 2100. Any other trigger, and one whose expression
cannot be read, has no times. -/
theorem fireTimes_exact (t : Trigger) (after : Instant) (count : Nat) :
    (∀ cronExpression branches s, t = .schedule cronExpression branches →
      Cron.Schedule.ofText cronExpression = .ok s →
      Cron.FirstTimes (fun time => after.Before ⟨time, 0⟩ ∧ s.Fits time) count
        (t.fireTimes after count) ∧
      ∀ time ∈ t.fireTimes after count,
        ∃ d, Calendar.IsDateOf ((time : Int) / 86400) d ∧ d.year ≤ 2100) ∧
    ((∀ cronExpression branches, t = .schedule cronExpression branches →
      ∃ e, Cron.Schedule.ofText cronExpression = .error e) → t.fireTimes after count = []) := by
  constructor
  · intro cronExpression branches s ht hs
    have h : t.schedule? = some s := schedule?_eq_some_iff.mpr ⟨_, _, ht, hs⟩
    have hfirst := firstTimes_fireTimes h after count
    refine ⟨hfirst, fun time htime => ?_⟩
    exact (regular_of_schedule? h).exists_year_le (hfirst.sound time htime).2
  · exact fun h => fireTimes_of_schedule?_eq_none (schedule?_eq_none_iff.mpr h)

/-- A trigger for midnight at the start of each 29th of February that is a Wednesday. -/
def leapWednesdays : Trigger := .schedule "0 0 0 29 Feb Wed" []

/-- The middle of the last second before such a day. -/
def lastLeapEve : Instant := ⟨3981311999, 500000000⟩

theorem fireTimes_exact_leapWednesdays :
    (∃ s, Cron.Schedule.ofText "0 0 0 29 Feb Wed" = .ok s ∧
      Cron.FirstTimes (fun time => lastLeapEve.Before ⟨time, 0⟩ ∧ s.Fits time) 3 [3981312000]) ∧
    (Trigger.tagCreate []).fireTimes lastLeapEve 3 = [] := by
  have hs : ∃ s, leapWednesdays.schedule? = some s := by
    rw [← Option.isSome_iff_exists]
    decide +kernel
  obtain ⟨s, hs⟩ := hs
  obtain ⟨_, _, he, hs⟩ := schedule?_eq_some_iff.mp hs
  have htimes : leapWednesdays.fireTimes lastLeapEve 3 = [3981312000] := by decide +kernel
  obtain ⟨hfirst, -⟩ := (fireTimes_exact leapWednesdays lastLeapEve 3).1 _ _ s he hs
  obtain ⟨rfl, -⟩ := Trigger.schedule.inj he
  refine ⟨⟨s, hs, htimes ▸ hfirst⟩, ?_⟩
  exact (fireTimes_exact (.tagCreate []) lastLeapEve 3).2 fun _ _ h => nomatch h

end Trigger

/-! ## Sorting by a key -/

/-- A list in ascending order of a key, in which entries of one key are in the order in which they
were before. -/
structure IsStableSort {α : Type} (key : α → Nat) (l sorted : List α) : Prop where
  perm : sorted.Perm l
  ordered : sorted.Pairwise fun a b => key a ≤ key b
  stable : ∀ k, sorted.filter (fun a => key a = k) = l.filter fun a => key a = k

theorem isStableSort_mergeSort {α : Type} (key : α → Nat) (l : List α) :
    IsStableSort key l (l.mergeSort fun a b => key a ≤ key b) := by
  have htrans : ∀ a b c : α, decide (key a ≤ key b) = true → decide (key b ≤ key c) = true →
      decide (key a ≤ key c) = true := by
    intro a b c hab hbc
    exact decide_eq_true ((of_decide_eq_true hab).trans (of_decide_eq_true hbc))
  have htotal : ∀ a b : α, (decide (key a ≤ key b) || decide (key b ≤ key a)) = true := by
    intro a b
    simpa using Nat.le_total (key a) (key b)
  have hperm := List.mergeSort_perm l fun a b => key a ≤ key b
  refine ⟨hperm, (List.pairwise_mergeSort htrans htotal l).imp of_decide_eq_true, fun k => ?_⟩
  -- The entries of one key are in order already, so sorting keeps them as a part of the list.
  have hequal : (l.filter fun a => key a = k).Pairwise
      fun a b => decide (key a ≤ key b) = true := by
    refine List.pairwise_of_forall_mem_list fun a ha b hb => decide_eq_true ?_
    rw [of_decide_eq_true (List.mem_filter.mp ha).2, of_decide_eq_true (List.mem_filter.mp hb).2]
  have hsub := (List.sublist_mergeSort htrans htotal hequal List.filter_sublist).filter
    fun a => decide (key a = k)
  rw [List.filter_filter] at hsub
  simp only [Bool.and_self] at hsub
  exact (hsub.eq_of_length (hperm.filter _).length_eq.symm).symm

/-! ## Announcements -/

namespace Fire

/-- An entry is for a trigger of a job: it has the name of the job, the expression of the trigger as
it is written, and the first time after a point in time that fits its schedule. -/
structure IsNext (after : Instant) (j : Job) (t : Trigger) (f : Fire) : Prop where
  jobName : f.jobName = j.name
  time : ∃ branches s, t = .schedule f.cronExpression branches ∧
    Cron.Schedule.ofText f.cronExpression = .ok s ∧
    IsLeast {time : Int | after.Before ⟨time, 0⟩ ∧ s.Fits time} f.time

/-- No time after a point in time fits a schedule of a trigger. -/
def IsSilent (after : Instant) (t : Trigger) : Prop :=
  ∀ cronExpression branches s, t = .schedule cronExpression branches →
    Cron.Schedule.ofText cronExpression = .ok s →
    ∀ time, after.Before ⟨time, 0⟩ → ¬ s.Fits time

/-- The entries for a list of triggers with their jobs, in order: one for each trigger that has a
next time, and none for any other. -/
inductive Announced (after : Instant) : List (Job × Trigger) → List Fire → Prop
  | nil : Announced after [] []
  | entry {j : Job} {t : Trigger} {f : Fire} {ts : List (Job × Trigger)} {fs : List Fire}
    (h : f.IsNext after j t) (rest : Announced after ts fs) :
    Announced after ((j, t) :: ts) (f :: fs)
  | silent {j : Job} {t : Trigger} {ts : List (Job × Trigger)} {fs : List Fire}
    (h : IsSilent after t) (rest : Announced after ts fs) :
    Announced after ((j, t) :: ts) fs

variable {after : Instant} {j : Job} {t : Trigger} {f : Fire}

theorem isNext_of_ofTrigger? (h : ofTrigger? j.name after t = some f) : f.IsNext after j t := by
  cases t with
  | schedule cronExpression branches =>
    obtain ⟨time, ht, rfl⟩ := Option.map_eq_some_iff.mp h
    obtain ⟨times, htimes⟩ := List.head?_eq_some_iff.mp ht
    cases hs : (Trigger.schedule cronExpression branches).schedule? with
    | none =>
      rw [Trigger.fireTimes_of_schedule?_eq_none hs] at htimes
      cases htimes
    | some s =>
      obtain ⟨_, _, he, hread⟩ := Trigger.schedule?_eq_some_iff.mp hs
      obtain ⟨rfl, rfl⟩ := Trigger.schedule.inj he
      have hfirst := Trigger.firstTimes_fireTimes hs after 1
      exact ⟨rfl, _, s, rfl, hread, (htimes ▸ hfirst).isLeast⟩
  | _ => cases h

theorem isSilent_of_ofTrigger? (h : ofTrigger? j.name after t = none) : IsSilent after t := by
  rintro cronExpression branches s rfl hread time ha hf
  have hs := Trigger.schedule?_eq_some_iff.mpr ⟨cronExpression, branches, rfl, hread⟩
  have hnil := List.head?_eq_none_iff.mp (Option.map_eq_none_iff.mp h)
  have hfirst := Trigger.firstTimes_fireTimes hs after 1
  exact (hnil ▸ hfirst).not_of_nil time ⟨ha, hf⟩

/-- Each trigger adds its entry, if it has one. -/
theorem announced_filterMap (after : Instant) (ts : List (Job × Trigger)) :
    Announced after ts (ts.filterMap fun e => ofTrigger? e.1.name after e.2) := by
  induction ts with
  | nil => exact .nil
  | cons e ts ih =>
    obtain ⟨j, t⟩ := e
    cases h : ofTrigger? j.name after t with
    | none =>
      simp only [List.filterMap_cons, h]
      exact .silent (isSilent_of_ofTrigger? h) ih
    | some f =>
      simp only [List.filterMap_cons, h]
      exact .entry (isNext_of_ofTrigger? h) ih

end Fire

namespace Spec

/-- The triggers of all jobs with the jobs that they belong to, in order. -/
def ownedTriggers (s : Spec) : List (Job × Trigger) :=
  s.jobs.flatMap fun j => j.triggers.map (j, ·)

theorem fires_eq (s : Spec) (after : Instant) :
    s.fires after = s.ownedTriggers.filterMap fun e => Fire.ofTrigger? e.1.name after e.2 := by
  simp only [fires, ownedTriggers, List.filterMap_flatMap, List.filterMap_map]
  rfl

/-- An announcement is the list of the next times of all triggers, in the order in which they are
declared, stably sorted by time. -/
theorem upcoming_sorted (s : Spec) (after : Instant) :
    ∃ entries, Fire.Announced after s.ownedTriggers entries ∧
      IsStableSort Fire.time entries (s.upcoming after) :=
  ⟨s.fires after, fires_eq s after ▸ Fire.announced_filterMap after s.ownedTriggers,
    isStableSort_mergeSort Fire.time (s.fires after)⟩

end Spec

end Pipeline
