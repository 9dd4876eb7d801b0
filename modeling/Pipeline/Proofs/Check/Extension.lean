import Pipeline.Proofs.Check.Beginnings
import Pipeline.Proofs.Check.References

/-!
# One job more

A job that is added behind the others is checked itself, it may repeat a name, and its own name is
one that references may be to. So of the other jobs everything is said as before, but that a
reference is to no job, if it is to the new one.

* `Check.Extends`: a check says of the first entries of a list what another one says, as that of a
  longer list does (`Check.extends_each`, `Check.extends_noRepeats`).
* `Check.Without`: a check says what another one says, but for one message, as that of references
  does if one name more is known (`Spec.without_checkReferences`).
* `Spec.violations_add`: what is said of a specification with one job more.
-/

namespace Pipeline

namespace Check

variable {c c' d d' : Check} {cs ds : List Check} {name label message : String} {keys : List String}
  {n : Nat}

/-! ## Longer lists -/

/-- What the check says, it says of the first entries of a list. -/
def Within (n : Nat) (c : Check) : Prop :=
  ∀ v ∈ c.report, ∃ i < n, v.path.isUnder (FieldPath.root.index i)

/-- Of the first entries of a list, the second check says what the first one says. -/
def Extends (n : Nat) (c c' : Check) : Prop :=
  (c'.report.filter fun v => ∃ i < n, v.path.isUnder (FieldPath.root.index i)) = c.report

/-- The path of a problem of an entry begins with the position of the entry. -/
theorem isUnder_index_iff [Relocatable c] {i k : Nat} {v : Violation} (h : v ∈ (index i c).report) :
    v.path.isUnder (FieldPath.root.index k) = true ↔ i = k := by
  rw [report_index] at h
  obtain ⟨w, -, rfl⟩ := List.mem_map.mp h
  rw [@eq_comm _ i k]
  simp [FieldPath.isUnder, Violation.below, FieldPath.index, FieldPath.root]

@[simp] theorem within_all_nil : (all []).Within n := nofun

@[simp] theorem within_all_cons [Relocatable (all cs)] :
    (all (c :: cs)).Within n ↔ c.Within n ∧ (all cs).Within n := by
  simp only [Within, report_all_cons, List.forall_mem_append]

theorem extends_all_nil : (all []).Extends n (all []) := rfl

theorem Extends.all_cons [Relocatable (all cs)] [Relocatable (all ds)] (h : c.Extends n d)
    (hs : (all cs).Extends n (all ds)) : (all (c :: cs)).Extends n (all (d :: ds)) := by
  rw [Extends, report_all_cons, report_all_cons, List.filter_append, h, hs]

/-- The entries of a list, and one more. -/
theorem Within.extends_of_concat [Relocatable d] (hc : c.Within n)
    (h : c'.report = c.report ++ (index n d).report) : c.Extends n c' := by
  have hnew : ((index n d).report.filter fun v =>
      ∃ i < n, v.path.isUnder (FieldPath.root.index i)) = [] := by
    refine List.filter_eq_nil_iff.mpr fun v hv => ?_
    rw [decide_eq_true_iff]
    rintro ⟨i, hi, hp⟩
    exact hi.ne ((isUnder_index_iff hv).mp hp).symm
  rw [Extends, h, List.filter_append, hnew, List.append_nil]
  exact List.filter_eq_self.mpr fun v hv => decide_eq_true (hc v hv)

section

variable {α : Type} {c : α → Check} [∀ a, Relocatable (c a)] {as : List α}

theorem report_each_concat (as : List α) (a : α) :
    (each c (as ++ [a])).report = (each c as).report ++ (index as.length (c a)).report := by
  rw [report_each, List.zipIdx_append, List.flatMap_append, ← report_each, Nat.zero_add]
  simp

theorem within_each (as : List α) : (each c as).Within as.length := by
  intro v hv
  obtain ⟨i, a, q, hp, ha, -⟩ := mem_messagesAt_each_iff.mp (Violations.mem_messagesAt_iff.mpr hv)
  refine ⟨i, (List.getElem?_eq_some_iff.mp ha).1, ?_⟩
  simp [hp, FieldPath.isUnder, FieldPath.index, FieldPath.root]

theorem extends_each (as : List α) (a : α) :
    (each c as).Extends as.length (each c (as ++ [a])) :=
  (within_each as).extends_of_concat (report_each_concat as a)

end

section

variable {lead : Check → Check} [∀ message, Relocatable (lead (fail message))]

theorem report_noRepeats (label : String) (keys : List String) :
    (noRepeats label lead keys).report = (duplicates keys).flatMap fun e =>
      (index e.1 (lead (fail (label ++ ": " ++ e.2)))).report :=
  report_all_map _

theorem within_noRepeats (label : String) (keys : List String) :
    (noRepeats label lead keys).Within keys.length := by
  intro v hv
  rw [report_noRepeats] at hv
  obtain ⟨⟨i, k⟩, he, hv⟩ := List.mem_flatMap.mp hv
  exact ⟨i, (List.getElem?_eq_some_iff.mp (getElem?_of_mem_duplicates he)).1,
    (isUnder_index_iff hv).mpr rfl⟩

/-- One key more is reported, if it is repeated, and nothing else is. -/
theorem extends_noRepeats (label : String) (keys : List String) (key : String) :
    (noRepeats label lead keys).Extends keys.length (noRepeats label lead (keys ++ [key])) := by
  have hkeys : (noRepeats label lead keys).Within keys.length := within_noRepeats label keys
  by_cases hk : key ∈ keys
  · refine hkeys.extends_of_concat (d := lead (fail (label ++ ": " ++ key))) ?_
    rw [report_noRepeats, duplicates_concat, if_pos hk, List.flatMap_append, List.flatMap_singleton,
      report_noRepeats]
  · refine hkeys.extends_of_concat (d := pass) ?_
    rw [report_noRepeats, duplicates_concat, if_neg hk, List.append_nil, report_noRepeats]
    exact (List.append_nil _).symm

end

/-! ## One message less -/

/-- The second check says what the first one says, but for a message. -/
def Without (message : String) (c d : Check) : Prop :=
  d.report = c.report.filter fun v => v.message ≠ message

theorem without_self (h : message ∉ c.messages) : c.Without message c :=
  (List.filter_eq_self.mpr fun v hv => by
    simpa using fun he : v.message = message => h (he ▸ List.mem_map_of_mem hv)).symm

theorem without_all_nil : (all []).Without message (all []) := rfl

theorem Without.all_cons [Relocatable (all cs)] [Relocatable (all ds)] (h : c.Without message d)
    (hs : (all cs).Without message (all ds)) :
    (all (c :: cs)).Without message (all (d :: ds)) := by
  rw [Without, report_all_cons, report_all_cons, List.filter_append, h, hs]

/-- Messages are the same wherever the value stands. -/
theorem filter_message_map_below (path : FieldPath) (found : Violations) :
    (found.map (Violation.below path)).filter (fun v => v.message ≠ message) =
      (found.filter fun v => v.message ≠ message).map (Violation.below path) := by
  rw [List.filter_map]
  rfl

theorem Without.field [Relocatable c] [Relocatable d] (h : c.Without message d) (name : String) :
    (Check.field name c).Without message (Check.field name d) := by
  rw [Without, report_field, report_field, filter_message_map_below, h]

theorem Without.index [Relocatable c] [Relocatable d] (h : c.Without message d) (i : Nat) :
    (Check.index i c).Without message (Check.index i d) := by
  rw [Without, report_index, report_index, filter_message_map_below, h]

theorem Without.optional {α : Type} {c d : α → Check} (h : ∀ a, (c a).Without message (d a))
    (o : Option α) : (Check.optional c o).Without message (Check.optional d o) := by
  cases o with
  | none => rfl
  | some a => exact h a

theorem Without.each {α : Type} {c d : α → Check} [∀ a, Relocatable (c a)]
    [∀ a, Relocatable (d a)] (h : ∀ a, (c a).Without message (d a)) (as : List α) :
    (Check.each c as).Without message (Check.each d as) := by
  rw [Without, report_each, report_each, List.filter_flatMap]
  exact List.flatMap_congr fun e _ => (h e.1).index e.2

end Check

open Check

/-! ## References -/

namespace Spec

variable {known : List String} {name name' : String}

theorem notFoundMessage_inj : notFoundMessage name = notFoundMessage name' ↔ name = name' :=
  String.append_right_inj _

/-- With one name more that references may be to, those to it are no longer reported. -/
theorem without_checkReference (known : List String) (name owner target : String) :
    (checkReference known owner target).Without (notFoundMessage name)
      (checkReference (known ++ [name]) owner target) := by
  unfold checkReference
  split
  · rfl
  · split
    · refine without_self fun h => ?_
      have hhead := head?_notFoundMessage name
      rw [List.mem_singleton.mp h] at hhead
      exact absurd hhead (by decide)
    -- the answers differ for the new name alone, and for it only if it was not known before
    · by_cases hk : target ∈ known
      · simp [hk, require, Without, report_pass]
      · by_cases hn : target = name
        · subst hn
          simp [hk, require, Without, report_pass]
        · simp [hk, hn, require, Without, notFoundMessage_inj]

theorem without_checkReferences (known : List String) (name : String) (j : Job) :
    (checkReferences known j).Without (notFoundMessage name)
      (checkReferences (known ++ [name]) j) := by
  have hreference := without_checkReference known name j.name
  have hdependencies := (Without.each (fun d : JobDependency =>
    (hreference d.jobName).field "job_name") j.jobDependencies).field "job_dependencies"
  have hactions := (Without.each (fun a : Action =>
    (Without.optional hreference a.runJobName?).field "job_name")
    j.postBuildActions).field "post_build_actions"
  exact hdependencies.all_cons (hactions.all_cons without_all_nil)

/-! ## Specifications -/

/-- Where a job stands. -/
def jobPath (i : Nat) : FieldPath := (FieldPath.root.field "jobs").index i

/-- The specification with one job more, behind the others. -/
def add (s : Spec) (j : Job) : Spec := { s with jobs := s.jobs ++ [j] }

/-- The check of a specification whose references may be to jobs of the given names. -/
def checkKnowing (known : List String) (s : Spec) : Check :=
  field "jobs" (all [each Job.check s.jobs, noRepeats "Duplicate job" (field "name") s.jobNames,
    each (checkReferences known) s.jobs])

/-- A job of a specification gives the name of a job at a place. -/
def RefersAt (s : Spec) (p : FieldPath) (target : String) : Prop :=
  ∃ i j q, s.jobs[i]? = some j ∧ p = jobPath i ++ q ∧ j.RefersAt q target

variable {s : Spec} {v : Violation} {p : FieldPath} {i k : Nat}

theorem jobNames_add (s : Spec) (j : Job) : (s.add j).jobNames = s.jobNames ++ [j.name] := by
  simp [jobNames, add]

theorem length_jobNames (s : Spec) : s.jobNames.length = s.jobs.length := List.length_map _

/-! ### Places of jobs -/

theorem isUnder_jobPath_iff : p.isUnder (jobPath i) = true ↔ ∃ q, p = jobPath i ++ q := by
  rw [FieldPath.isUnder, List.isPrefixOf_iff_prefix]
  exact exists_congr fun q => eq_comm

theorem isUnder_jobPath_below : (Violation.below (FieldPath.root.field "jobs") v).path.isUnder
    (jobPath i) = v.path.isUnder (FieldPath.root.index i) := by
  simp [FieldPath.isUnder, Violation.below, jobPath, FieldPath.index, FieldPath.field, FieldPath.root]

theorem jobPath_append_inj {q q' : FieldPath} :
    jobPath i ++ q = jobPath k ++ q' ↔ i = k ∧ q = q' := by
  simp [jobPath, FieldPath.index, FieldPath.field, FieldPath.root]

theorem eq_of_isUnder_jobPath (hi : p.isUnder (jobPath i)) (hk : p.isUnder (jobPath k)) : i = k := by
  obtain ⟨q, rfl⟩ := isUnder_jobPath_iff.mp hi
  obtain ⟨q', hq⟩ := isUnder_jobPath_iff.mp hk
  exact (jobPath_append_inj.mp hq).1

/-- Every problem is one of a job. -/
theorem exists_isUnder_of_mem_violations (h : v ∈ s.violations) :
    ∃ i < s.jobs.length, v.path.isUnder (jobPath i) := by
  have hnames : (noRepeats "Duplicate job" (field "name") s.jobNames).Within s.jobs.length :=
    s.length_jobNames ▸ within_noRepeats "Duplicate job" s.jobNames
  have hwithin : (all [each Job.check s.jobs, noRepeats "Duplicate job" (field "name") s.jobNames,
      each (checkReferences s.jobNames) s.jobs]).Within s.jobs.length := by
    simp [within_each, hnames]
  rw [violations, check, report_field] at h
  obtain ⟨w, hw, rfl⟩ := List.mem_map.mp h
  obtain ⟨i, hi, hp⟩ := hwithin w hw
  exact ⟨i, hi, isUnder_jobPath_below.trans hp⟩

/-- What is said of the jobs is what is said of the entries of their list. -/
theorem filter_isUnder_jobPath {c d : Check} [Relocatable c] [Relocatable d] {n : Nat}
    (h : c.Extends n d) :
    ((field "jobs" d).report.filter fun v => ∃ i < n, v.path.isUnder (jobPath i)) =
      (field "jobs" c).report := by
  rw [report_field, report_field, ← h, List.filter_map]
  simp only [Function.comp_def, isUnder_jobPath_below]

/-! ### One job more -/

/-- Of the references to the new job it is no longer said that there is no such job. -/
theorem without_checkKnowing (s : Spec) (name : String) :
    s.check.Without (notFoundMessage name) (s.checkKnowing (s.jobNames ++ [name])) := by
  have hown : notFoundMessage name ∉ (each Job.check s.jobs).messages := fun hm =>
    avoids_each.mpr (fun j _ => j.avoids_check) _ hm (head?_notFoundMessage name)
  have hnames : (noRepeats "Duplicate job" (field "name") s.jobNames).Avoids 'J' := by simp
  have hrepeated : notFoundMessage name ∉
      (noRepeats "Duplicate job" (field "name") s.jobNames).messages := fun hm =>
    hnames _ hm (head?_notFoundMessage name)
  have hreferences := Without.each (without_checkReferences s.jobNames name) s.jobs
  exact ((without_self hown).all_cons ((without_self hrepeated).all_cons
    (hreferences.all_cons without_all_nil))).field "jobs"

theorem extends_add (s : Spec) (j : Job) :
    (all [each Job.check s.jobs, noRepeats "Duplicate job" (field "name") s.jobNames,
      each (checkReferences (s.add j).jobNames) s.jobs]).Extends s.jobs.length
    (all [each Job.check (s.add j).jobs,
      noRepeats "Duplicate job" (field "name") (s.add j).jobNames,
      each (checkReferences (s.add j).jobNames) (s.add j).jobs]) := by
  have hnames : (noRepeats "Duplicate job" (field "name") s.jobNames).Extends s.jobs.length
      (noRepeats "Duplicate job" (field "name") (s.add j).jobNames) := by
    rw [jobNames_add, ← s.length_jobNames]
    exact extends_noRepeats "Duplicate job" s.jobNames j.name
  exact (extends_each s.jobs j).all_cons (hnames.all_cons
    ((extends_each s.jobs j).all_cons extends_all_nil))

/-- What is said of the other jobs. -/
theorem filter_violations_add (s : Spec) (j : Job) :
    ((s.add j).violations.filter fun v => ∃ i < s.jobs.length, v.path.isUnder (jobPath i)) =
      s.violations.filter fun v => v.message ≠ notFoundMessage j.name := by
  have hadd := filter_isUnder_jobPath (s.extends_add j)
  have hknown := s.without_checkKnowing j.name
  rw [← jobNames_add] at hknown
  exact hadd.trans hknown

/-! ### References to no job -/

theorem RefersAt.unique {target target' : String} (h : s.RefersAt p target)
    (h' : s.RefersAt p target') : target = target' := by
  obtain ⟨i, j, q, hj, rfl, ht⟩ := h
  obtain ⟨k, j', q', hj', hq, ht'⟩ := h'
  obtain ⟨rfl, rfl⟩ := jobPath_append_inj.mp hq
  obtain rfl := Option.some.inj (hj.symm.trans hj')
  exact ht.unique ht' rfl

/-- That there is no job of a name is said of references to it only. -/
theorem refersAt_of_message_eq (h : v ∈ s.violations) {name : String}
    (hm : v.message = notFoundMessage name) : s.RefersAt v.path name := by
  obtain ⟨i, hi, hp⟩ := exists_isUnder_of_mem_violations h
  obtain ⟨q, hq⟩ := isUnder_jobPath_iff.mp hp
  have hj : s.jobs[i]? = some s.jobs[i] := List.getElem?_eq_getElem hi
  have hhead : v.message.toList.head? = some 'J' := hm ▸ head?_notFoundMessage name
  have hsaid : v.message ∈ s.check.messagesAt (jobPath i ++ q) :=
    hq ▸ Violations.mem_messagesAt_iff.mpr h
  have hparts := messagesAt_check hj q ▸ hsaid
  simp only [List.mem_append] at hparts
  refine ⟨i, _, q, hj, hq, ?_⟩
  -- of the three checks that look into a job, only that of the references says such a thing
  rcases hparts with (hown | hrepeated) | hreference
  · exact absurd hhead (s.jobs[i].avoids_check.head?_ne hown)
  · have hnames : (noRepeats "Duplicate job" (field "name") s.jobNames).Avoids 'J' := by simp
    exact absurd hhead (hnames.head?_ne hrepeated)
  · obtain ⟨target, hat, hsaid⟩ := mem_messagesAt_checkReferences_iff.mp hreference
    obtain ⟨-, ⟨-, hself⟩ | ⟨-, -, hnone⟩⟩ := mem_messagesAt_checkReference_iff.mp hsaid
    · exact absurd (hself ▸ hhead) (by decide)
    · exact notFoundMessage_inj.mp (hnone.symm.trans hm) ▸ hat

/-- That there is no job of a name is said of the references to it, and of nothing else. -/
theorem message_eq_notFoundMessage_iff (h : v ∈ s.violations) (name : String) :
    v.message = notFoundMessage name ↔
      (∃ target, v.message = notFoundMessage target) ∧ s.RefersAt v.path name := by
  constructor
  · exact fun hm => ⟨⟨name, hm⟩, refersAt_of_message_eq h hm⟩
  · rintro ⟨⟨target, hm⟩, hat⟩
    rw [hm, (refersAt_of_message_eq h hm).unique hat]

/-- With one job more behind the others, what is said of these is what was said before, in the same
order, but that there is no job of the name of the new one, which is said of the references to it and of
nothing else. Everything else is said of the new job. -/
theorem violations_add (s : Spec) (j : Job) :
    ((s.add j).violations.filter fun v => ∃ i < s.jobs.length, v.path.isUnder (jobPath i)) =
      (s.violations.filter fun v => v.message ≠ notFoundMessage j.name) ∧
    (∀ v ∈ s.violations, v.message = notFoundMessage j.name ↔
      (∃ target, v.message = notFoundMessage target) ∧ s.RefersAt v.path j.name) ∧
    ((s.add j).violations.filter fun v => ¬ ∃ i < s.jobs.length, v.path.isUnder (jobPath i)) =
      (s.add j).violations.under (jobPath s.jobs.length) := by
  refine ⟨s.filter_violations_add j, fun v hv => message_eq_notFoundMessage_iff hv j.name, ?_⟩
  refine List.filter_congr fun v hv => ?_
  obtain ⟨i, hi, hp⟩ := exists_isUnder_of_mem_violations hv
  have hlength : i < s.jobs.length + 1 := by simpa [add] using hi
  rw [Bool.eq_iff_iff, decide_eq_true_iff]
  constructor
  · intro hnone
    obtain rfl : i = s.jobs.length :=
      (Nat.lt_succ_iff_lt_or_eq.mp hlength).resolve_left fun hlt => hnone ⟨i, hlt, hp⟩
    exact hp
  · rintro hnew ⟨k, hk, hpk⟩
    exact hk.ne (eq_of_isUnder_jobPath hpk hnew)

/-- A job that depends on two jobs, which there are not. -/
def expectant : Spec :=
  .ofJobs [{ Job.ofCommands "test" "i" ["c"] with
    jobDependencies := [.ofName "build", .ofName "lint"] }]

/-- One of the jobs on which the job of `expectant` depends. It has no image. -/
def expected : Job := Job.ofCommands "build" "" ["c"]

theorem violations_add_expected :
    let dependency (k : Nat) : FieldPath :=
      jobPath 0 ++ [.field "job_dependencies", .index k, .field "job_name"]
    expectant.violations =
      [⟨dependency 0, "Job not found: build"⟩, ⟨dependency 1, "Job not found: lint"⟩] ∧
    expectant.RefersAt (dependency 0) "build" ∧
    ((expectant.add expected).violations.filter fun v => ∃ i < 1, v.path.isUnder (jobPath i)) =
      [⟨dependency 1, "Job not found: lint"⟩] ∧
    ((expectant.add expected).violations.filter fun v =>
      ¬ ∃ i < 1, v.path.isUnder (jobPath i)) = [⟨jobPath 1 ++ [.field "image"], emptyMessage⟩] := by
  intro dependency
  have hfound : expectant.violations =
      [⟨dependency 0, "Job not found: build"⟩, ⟨dependency 1, "Job not found: lint"⟩] := by
    decide +kernel
  obtain ⟨hkept, hreferences, hrest⟩ := violations_add expectant expected
  have hbuild := hreferences ⟨dependency 0, "Job not found: build"⟩ (hfound ▸ .head _)
  refine ⟨hfound, (hbuild.mp rfl).2, hkept.trans ?_, hrest.trans (by decide +kernel)⟩
  rw [hfound]
  decide

end Spec

end Pipeline
