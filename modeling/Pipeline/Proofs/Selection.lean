import Mathlib.Data.List.Nodup
import Pipeline.Spec

/-!
# Which job a selection names

A selection is the name of a job, alone or behind `jobs/`. What begins with `jobs/` is always read
the second way, since a name may begin so too.

* `Spec.job?_eq_some_iff`: the job of a name, where no two jobs have one name.
* `Spec.select?_eq_some_iff`: the job of a selection.
* `Spec.select?_spellings`: every job is selected behind `jobs/`, and by its name alone just if the
  name does not begin so.
-/

namespace Pipeline

namespace Spec

variable {s : Spec} {j : Job} {name selection : String}

/-- A selection that begins as those do that tell more than a name. -/
def IsPrefixed (selection : String) : Prop := Job.selectionStart.toList <+: selection.toList

theorem isPrefixed_append (name : String) : IsPrefixed (Job.selectionStart ++ name) := by
  rw [IsPrefixed, String.toList_append]
  exact List.prefix_append _ _

theorem IsPrefixed.exists_append (h : IsPrefixed selection) :
    ∃ name, selection = Job.selectionStart ++ name := by
  obtain ⟨rest, hr⟩ := h
  refine ⟨String.ofList rest, String.toList_inj.mp ?_⟩
  rw [String.toList_append, String.toList_ofList, hr]

theorem selectedName_append (name : String) :
    selectedName (Job.selectionStart ++ name) = name := by
  rw [selectedName, Text.dropStart?, String.toList_append, Text.afterStart?_append]
  exact String.ofList_toList

theorem selectedName_of_not_isPrefixed (h : ¬ IsPrefixed selection) :
    selectedName selection = selection := by
  rw [IsPrefixed, ← Text.isSome_afterStart?_iff, Bool.not_eq_true,
    Option.isSome_eq_false_iff, Option.isNone_iff_eq_none] at h
  rw [selectedName, Text.dropStart?, h]
  rfl

theorem of_job?_eq_some (h : s.job? name = some j) : j ∈ s.jobs ∧ j.name = name := by
  have hp : (j.name == name) = true := List.find?_some (p := fun j : Job => j.name == name) h
  exact ⟨List.mem_of_find?_eq_some h, beq_iff_eq.mp hp⟩

/-- Where no two jobs have one name, a name finds the job that has it. -/
theorem job?_eq_some_iff (h : s.jobNames.Nodup) :
    s.job? name = some j ↔ j ∈ s.jobs ∧ j.name = name := by
  constructor
  · exact of_job?_eq_some
  · rintro ⟨hj, hn⟩
    have hsome : (s.job? name).isSome := List.find?_isSome.mpr ⟨j, hj, beq_iff_eq.mpr hn⟩
    obtain ⟨k, hk⟩ := Option.isSome_iff_exists.mp hsome
    obtain ⟨hkj, hkn⟩ := of_job?_eq_some hk
    have he : k = j := List.inj_on_of_nodup_map h hkj hj (hkn.trans hn.symm)
    rw [hk, he]

/-- What a selection finds: the job whose name stands behind `jobs/`, or the job of that name if the
selection does not begin so. -/
theorem select?_eq_some_iff (h : s.jobNames.Nodup) :
    s.select? selection = some j ↔ j ∈ s.jobs ∧
      (selection = Job.selectionStart ++ j.name ∨ ¬ IsPrefixed selection ∧ selection = j.name) := by
  rw [select?, job?_eq_some_iff h, and_congr_right_iff]
  intro _
  by_cases hp : IsPrefixed selection
  · obtain ⟨name, rfl⟩ := hp.exists_append
    rw [selectedName_append, String.append_right_inj]
    simp [hp, eq_comm]
  · have hne : selection ≠ Job.selectionStart ++ j.name := fun he =>
      hp (he ▸ isPrefixed_append j.name)
    rw [selectedName_of_not_isPrefixed hp]
    simp [hp, hne, eq_comm]

theorem ne_append (name : String) : name ≠ Job.selectionStart ++ name := by
  intro h
  have hlen := congrArg String.length h
  rw [String.length_append] at hlen
  have hpos : 0 < Job.selectionStart.length := by decide
  omega

/-- Behind `jobs/`, the name of a job selects it, whatever the name is. By itself, the name selects
its job just if it does not begin with `jobs/`. If it does, what follows is taken as the name: the
job of that name is selected, and none if no job has it. -/
theorem select?_spellings (h : s.jobNames.Nodup) (hj : j ∈ s.jobs) :
    s.select? (Job.selectionStart ++ j.name) = some j ∧
    (s.select? j.name = some j ↔ ¬ IsPrefixed j.name) ∧
    ∀ name, j.name = Job.selectionStart ++ name →
      ∀ k, s.select? j.name = some k ↔ k ∈ s.jobs ∧ k.name = name := by
  refine ⟨(select?_eq_some_iff h).mpr ⟨hj, .inl rfl⟩, ?_, fun name hn k => ?_⟩
  · rw [select?_eq_some_iff h, and_iff_right hj, or_iff_right (ne_append j.name)]
    exact and_iff_left rfl
  · rw [hn, select?, selectedName_append, job?_eq_some_iff h]

/-- Jobs of which one has a name that begins as selections may, one the name behind that, and one
only the beginning. -/
def lookalikes : Spec :=
  .ofJobs [.ofCommands "x" "i" ["c"], .ofCommands "jobs/x" "i" ["c"], .ofCommands "jobs/" "i" ["c"]]

theorem select?_spellings_lookalikes :
    lookalikes.jobNames.Nodup ∧
    lookalikes.select? "jobs/x" = some (.ofCommands "x" "i" ["c"]) ∧
    lookalikes.select? "x" = some (.ofCommands "x" "i" ["c"]) ∧
    lookalikes.select? "jobs/jobs/x" = some (.ofCommands "jobs/x" "i" ["c"]) ∧
    lookalikes.select? "jobs/jobs/" = some (.ofCommands "jobs/" "i" ["c"]) ∧
    lookalikes.select? "jobs/" ≠ some (.ofCommands "jobs/" "i" ["c"]) := by
  have h : lookalikes.jobNames.Nodup := by decide
  have hx : Job.ofCommands "x" "i" ["c"] ∈ lookalikes.jobs := .head _
  have hprefixed : Job.ofCommands "jobs/x" "i" ["c"] ∈ lookalikes.jobs := .tail _ (.head _)
  have hempty : Job.ofCommands "jobs/" "i" ["c"] ∈ lookalikes.jobs := .tail _ (.tail _ (.head _))
  have hplain : ¬ IsPrefixed "x" := by
    rw [IsPrefixed]
    decide
  obtain ⟨-, hname, -⟩ := select?_spellings h hx
  obtain ⟨hbehind, -, hother⟩ := select?_spellings h hprefixed
  obtain ⟨hbehind', hname', -⟩ := select?_spellings h hempty
  exact ⟨h, (hother "x" rfl _).mpr ⟨hx, rfl⟩, hname.mpr hplain, hbehind, hbehind',
    mt hname'.mp (not_not.mpr (isPrefixed_append ""))⟩

/-- One job only, whose name begins as selections may. -/
def lone : Spec := .ofJobs [.ofCommands "jobs/x" "i" ["c"]]

/-- Nothing is wrong with the specification, but its job is not selected by its name. -/
theorem select?_lone_eq_none :
    lone.violations = [] ∧ lone.jobNames.Nodup ∧ Job.ofCommands "jobs/x" "i" ["c"] ∈ lone.jobs ∧
    lone.select? "jobs/x" = none := by
  refine ⟨by decide +kernel, by decide, .head _, by decide⟩

end Spec

end Pipeline
