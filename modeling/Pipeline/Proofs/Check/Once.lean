import Mathlib.Data.List.Nodup
import Pipeline.Proofs.Check.Repetition

/-!
# No problem is reported twice

`Check.Once`: at no path does a check say one thing twice. A combined check has this if its parts
have it and are `Check.Apart`: what one of them says at a path, no other one says there. Parts are
apart because they look at different fields, or because what they say of the same value begins
differently.

* `Check.once_all_cons`, `Check.once_each`, ...: the rules, and those for `Check.Apart`.
* `Job.apart_check_checkReferences`: a reference that is blank is reported by the job, and any other
  one by the specification.
* `Spec.violations_nodup`: no two problems of a specification are the same.
-/

namespace Pipeline

namespace Check

variable {c d : Check} {cs : List Check} {name key label label' : String} {keys keys' : List String}

/-- At no path does the check say one thing twice. -/
def Once (c : Check) : Prop := ∀ p, (c.messagesAt p).Nodup

/-- What one check says at a path, the other one does not say there. -/
def Apart (c d : Check) : Prop := ∀ p, ∀ said ∈ c.messagesAt p, said ∉ d.messagesAt p

/-- Equal problems are equal messages at one path. -/
theorem Once.nodup_report (h : c.Once) : c.report.Nodup := by
  rw [List.nodup_iff_count_le_one]
  intro v
  calc c.report.count v
      = (c.report.filter fun w => w.path = v.path).count v := by
        rw [List.count_filter (by simp)]
    _ ≤ (c.messagesAt v.path).count v.message := List.count_le_count_map
    _ ≤ 1 := List.nodup_iff_count_le_one.mp (h v.path) v.message

/-! ## Checks that are apart -/

theorem Apart.symm (h : c.Apart d) : d.Apart c := fun p said hd hc => h p said hc hd

@[simp] theorem apart_all_nil : c.Apart (all []) := fun _ _ _ => List.not_mem_nil

@[simp] theorem apart_all_cons [Relocatable (all cs)] :
    c.Apart (all (d :: cs)) ↔ c.Apart d ∧ c.Apart (all cs) := by
  simp only [Apart, messagesAt_all_cons, List.mem_append, not_or, forall_and]

@[simp] theorem pass_apart : pass.Apart d := nofun

@[simp] theorem apart_pass : c.Apart pass := fun _ _ _ => List.not_mem_nil

@[simp] theorem apart_optional {α : Type} {d : α → Check} {o : Option α} :
    c.Apart (optional d o) ↔ ∀ a, o = some a → c.Apart (d a) := by
  cases o with
  | none => simp [optional, Apart]
  | some a => simp [optional]

@[simp] theorem apart_field_field [Relocatable c] [Relocatable d] :
    (field name c).Apart (field key d) ↔ (name = key → c.Apart d) := by
  constructor
  · rintro h rfl p said hc hd
    exact h (.field name :: p) said (by simpa using hc) (by simpa using hd)
  · rintro h p said hc hd
    obtain ⟨q, rfl, hq⟩ := mem_messagesAt_field_iff.mp hc
    obtain ⟨_, hp, hq'⟩ := mem_messagesAt_field_iff.mp hd
    obtain ⟨hname, rfl⟩ := List.cons.inj hp
    exact h (PathSegment.field.inj hname) q said hq hq'

/-- What is said of a value is said at another place than what is said of its entries. -/
theorem Elementary.apart_each {α : Type} {d : α → Check} [∀ a, Relocatable (d a)] {as : List α}
    (h : c.Elementary) : c.Apart (each d as) := by
  intro p said hc hd
  obtain ⟨rfl, -⟩ := h.mem_messagesAt_iff.mp hc
  simp at hd

theorem Elementary.apart_noRepeats {lead : Check → Check}
    [∀ message, Relocatable (lead (fail message))] (h : c.Elementary) :
    c.Apart (noRepeats label lead keys) := by
  intro p said hc hd
  obtain ⟨rfl, -⟩ := h.mem_messagesAt_iff.mp hc
  simp at hd

theorem apart_each_each {α : Type} {c d : α → Check} [∀ a, Relocatable (c a)]
    [∀ a, Relocatable (d a)] {as : List α} (h : ∀ a, (c a).Apart (d a)) :
    (each c as).Apart (each d as) := by
  intro p said hc hd
  obtain ⟨i, a, q, rfl, ha, hc⟩ := mem_messagesAt_each_iff.mp hc
  rw [messagesAt_each_index, ha] at hd
  exact h a q said hc hd

/-- What is said of a repeated key, and where. -/
theorem mem_messagesAt_noRepeats_field_iff {p : FieldPath} {said : String} :
    said ∈ (noRepeats label (field name) keys).messagesAt p ↔
      ∃ i key, p = [.index i, .field name] ∧ repeatedAt? keys i = some key ∧
        said = label ++ ": " ++ key := by
  match p with
  | [] | .field key :: p => simp
  | .index i :: p =>
    rw [messagesAt_noRepeats_index]
    cases hk : repeatedAt? keys i with
    | none => simp [hk]
    | some key =>
      simp only [Option.elim_some, mem_messagesAt_field_iff,
        (elementary_fail _).mem_messagesAt_iff, messagesAt_fail_nil, List.mem_singleton]
      constructor
      · rintro ⟨q, rfl, rfl, rfl⟩
        exact ⟨i, key, rfl, hk, rfl⟩
      · rintro ⟨_, _, hp, hk', rfl⟩
        obtain ⟨hi, rfl⟩ := List.cons.inj hp
        obtain rfl := PathSegment.index.inj hi
        obtain rfl := Option.some.inj (hk.symm.trans hk')
        exact ⟨_, rfl, rfl, rfl⟩

theorem apart_noRepeats_noRepeats (h : name ≠ key) :
    (noRepeats label (field name) keys).Apart (noRepeats label' (field key) keys') := by
  intro p said hc hd
  obtain ⟨i, _, rfl, -, -⟩ := mem_messagesAt_noRepeats_field_iff.mp hc
  obtain ⟨k, _, hp, -, -⟩ := mem_messagesAt_noRepeats_field_iff.mp hd
  exact h (by simpa using (List.cons.inj hp).2)

/-- Of a key that may not be empty it is said otherwise that it is repeated. -/
theorem apart_each_noRepeats {α : Type} {c : α → Check} [∀ a, Relocatable (c a)] {as : List α}
    (h : ∀ a, AsksFor name (c a)) (hl : label.toList.head? = some 'D') :
    (each c as).Apart (noRepeats label (field name) keys) := by
  intro p said hc hd
  obtain ⟨i, key, rfl, -, rfl⟩ := mem_messagesAt_noRepeats_field_iff.mp hd
  have hsilent : (each c as).Silent ⟨[], [.field name], label, keys⟩ :=
    silent_each_of_asksFor h hl
  exact hsilent i _ hc (KeyList.introduces_message ⟨[], [], label, []⟩ key)

/-! ## Checks that say nothing twice -/

theorem Elementary.once (h : c.Elementary) : c.Once := by
  intro p
  cases p with
  | nil =>
    rcases h with h | ⟨message, h⟩ <;>
      simp [messagesAt, Violations.messagesAt, h, FieldPath.root]
  | cons step p => simp [h.messagesAt_cons]

@[simp] theorem once_pass : pass.Once := elementary_pass.once

@[simp] theorem once_require {ok : Bool} {message : String} : (require ok message).Once :=
  (elementary_require ok message).once

@[simp] theorem once_notEmpty {s : String} : (notEmpty s).Once := (elementary_notEmpty s).once

@[simp] theorem once_all_nil : (all []).Once := fun _ => List.nodup_nil

@[simp] theorem once_all_cons [Relocatable (all cs)] :
    (all (c :: cs)).Once ↔ c.Once ∧ (all cs).Once ∧ c.Apart (all cs) := by
  simp only [Once, messagesAt_all_cons, List.nodup_append', forall_and]
  rfl

@[simp] theorem once_field [Relocatable c] : (field name c).Once ↔ c.Once := by
  constructor
  · intro h p
    simpa using h (.field name :: p)
  · intro h p
    match p with
    | [] | .index i :: p => simp
    | .field key :: p =>
      rw [messagesAt_field_field]
      split
      · exact h p
      · exact List.nodup_nil

@[simp] theorem once_optional {α : Type} {c : α → Check} {o : Option α} :
    (optional c o).Once ↔ ∀ a, o = some a → (c a).Once := by
  cases o <;> simp [optional]

theorem once_each {α : Type} {c : α → Check} [∀ a, Relocatable (c a)] {as : List α}
    (h : ∀ a, (c a).Once) : (each c as).Once := by
  intro p
  match p with
  | [] | .field key :: p => simp
  | .index i :: p =>
    rw [messagesAt_each_index]
    cases as[i]? with
    | none => exact List.nodup_nil
    | some a => exact h a p

/-- A position repeats one key at most. -/
theorem once_noRepeats {lead : Check → Check} [∀ message, Relocatable (lead (fail message))]
    (h : ∀ message, (lead (fail message)).Once) : (noRepeats label lead keys).Once := by
  intro p
  match p with
  | [] | .field key :: p => simp
  | .index i :: p =>
    rw [messagesAt_noRepeats_index]
    cases repeatedAt? keys i with
    | none => exact List.nodup_nil
    | some key => exact h _ p

@[simp] theorem once_noRepeats_field : (noRepeats label (field name) keys).Once :=
  once_noRepeats fun message => once_field.mpr (elementary_fail message).once

/-- A list whose entries are checked, and are told apart by one of their fields. -/
theorem once_each_noRepeats {α : Type} {c : α → Check} [∀ a, Relocatable (c a)] {as : List α}
    (h : ∀ a, (c a).Once) (hname : ∀ a, AsksFor name (c a)) (hl : label.toList.head? = some 'D') :
    (all [each c as, noRepeats label (field name) keys]).Once := by
  simp [once_each h, apart_each_noRepeats hname hl]

end Check

open Check

/-! ## The parts of a job -/

theorem Cache.once_check (c : Cache) : c.check.Once := by simp [check]

theorem Service.once_check (s : Service) : s.check.Once := by
  have hvars : (each EnvVar.check s.envVars).Once := once_each fun v => by simp [EnvVar.check]
  have hnames : (each EnvVar.check s.envVars).Apart (noRepeats "Duplicate environment variable"
      (field "name") (s.envVars.map EnvVar.name)) :=
    apart_each_noRepeats (fun v => by simp [EnvVar.check]) rfl
  simp [check, hvars, hnames]

namespace ParamSpec

theorem elementary_checkDefault (kind : ParamKind) (value : String) :
    (checkDefault kind value).Elementary := by
  unfold checkDefault
  split
  · exact elementary_pass
  · exact elementary_require _ _
  · exact elementary_require _ _
  · exact elementary_require _ _
  · exact elementary_fail _

theorem once_checkChoices (choices : List String) : (checkChoices choices).Once := by
  have hrepeated : (noRepeats "Duplicate choice" id choices).Once :=
    once_noRepeats fun message => (elementary_fail message).once
  have hnone : (require (!choices.isEmpty) "At least one choice must be defined").Apart
      (noRepeats "Duplicate choice" id choices) := (elementary_require _ _).apart_noRepeats
  simp [checkChoices, hrepeated, hnone]

theorem once_check (p : ParamSpec) : p.check.Once := by
  have hdefault : ∀ value, (checkDefault p.kind value).Once := fun value =>
    (elementary_checkDefault p.kind value).once
  have hkind : (checkKind p.kind).Once := by
    cases p.kind <;> simp [checkKind, once_checkChoices]
  have hname : (field "name" (notEmpty p.name)).Apart (checkKind p.kind) := by
    cases p.kind <;> simp [checkKind]
  have hbehind : (checkKind p.kind).Apart
      (field "default_value" (optional (checkDefault p.kind) p.defaultValue)) := by
    cases p.kind <;> simp [checkKind]
  simp [check, hdefault, hkind, hname, hbehind]

end ParamSpec

theorem ParamSupply.once_checkAll (supplies : List ParamSupply) : (checkAll supplies).Once :=
  once_each_noRepeats (fun p => by simp [check]) (fun p => by simp [check]) rfl

theorem JobDependency.once_check (d : JobDependency) : d.check.Once := by
  simp [check, ParamSupply.once_checkAll]

theorem ProjectDependency.once_check (d : ProjectDependency) : d.check.Once := by
  have hbuild : d.build.check.Once := by cases d.build <;> simp [BuildSelector.check]
  simp [check, hbuild]

theorem Report.once_check (r : Report) : r.check.Once := by simp [check]

theorem Action.once_check (a : Action) : a.check.Once := by
  obtain ⟨condition, kind⟩ := a
  cases kind <;> simp [check, ActionKind.check, ParamSupply.once_checkAll]

namespace Trigger

theorem elementary_checkPattern (pattern : String) : (checkPattern pattern).Elementary := by
  unfold checkPattern
  split
  · exact elementary_pass
  · exact elementary_fail _

theorem elementary_checkCron (expression : String) : (checkCron expression).Elementary := by
  unfold checkCron
  split
  · exact elementary_notEmpty expression
  · split
    · exact elementary_pass
    · exact elementary_fail _

theorem once_check (t : Trigger) : t.check.Once := by
  have hpatterns : ∀ patterns, (checkPatterns patterns).Once := fun patterns =>
    once_each fun pattern => (elementary_checkPattern pattern).once
  have hcron : ∀ expression, (checkCron expression).Once := fun expression =>
    (elementary_checkCron expression).once
  cases t <;> simp [check, hpatterns, hcron]

end Trigger

/-! ## Jobs -/

namespace Job

/-- What is wrong with the references to variables is not that there are none. -/
theorem apart_notEmpty_checkInterpolation (s : String) :
    (notEmpty s).Apart (checkInterpolation s) := by
  intro p said hempty hs
  obtain rfl := eq_of_mem_messagesAt_notEmpty hempty
  obtain ⟨-, hs⟩ := (elementary_checkInterpolation s).mem_messagesAt_iff.mp hs
  unfold checkInterpolation at hs
  split at hs
  · cases hs
  · rename_i e _
    have he : emptyMessage = e.message := List.mem_singleton.mp hs
    exact absurd (he ▸ e.head?_message_mem) (by decide)

theorem once_checkField (j : Job) (f : JobField) : (f.check j).Once := by
  have hinterpolation : ∀ s, (checkInterpolation s).Once := fun s =>
    (elementary_checkInterpolation s).once
  have hrequirement : ∀ s, (checkRequirement s).Once := fun s =>
    (elementary_checkRequirement s).once
  cases f with
  | image => simp [JobField.check, hinterpolation, apart_notEmpty_checkInterpolation]
  | commands =>
    have hcommands : (require (!j.commands.isEmpty) emptyMessage).Apart
        (each checkInterpolation j.commands) := (elementary_require _ _).apart_each
    simp [JobField.check, once_each hinterpolation, hcommands]
  | services =>
    exact once_each_noRepeats Service.once_check (fun s => by simp [Service.check]) rfl
  | reports =>
    exact once_each_noRepeats Report.once_check (fun r => by simp [Report.check]) rfl
  | jobDependencies =>
    exact once_each_noRepeats JobDependency.once_check (fun d => by simp [JobDependency.check]) rfl
  | paramSpecs =>
    exact once_each_noRepeats ParamSpec.once_check ParamSpec.asksFor_check rfl
  | caches =>
    have hkeys : (each Cache.check j.caches).Apart
        (noRepeats "Duplicate key" (field "key") (j.caches.map Cache.key)) :=
      apart_each_noRepeats (fun c => by simp [Cache.check]) rfl
    have hpaths : (each Cache.check j.caches).Apart
        (noRepeats "Duplicate path" (field "path") (j.caches.map Cache.path)) :=
      apart_each_noRepeats (fun c => by simp [Cache.check]) rfl
    simp [JobField.check, once_each Cache.once_check, hkeys, hpaths, apart_noRepeats_noRepeats]
  | cloneDepth =>
    simp only [JobField.check]
    split <;> simp
  | submoduleCredentials =>
    simp only [JobField.check]
    split
    · exact once_each fun c => by simp [checkCredential]
    · exact once_pass
  | projectDependencies => exact once_each ProjectDependency.once_check
  | triggers => exact once_each Trigger.once_check
  | postBuildActions => exact once_each Action.once_check
  | _ => simp [JobField.check, hinterpolation, hrequirement]

theorem once_check (j : Job) : j.check.Once := by
  intro p
  have hkeys : JobField.checked.Pairwise fun f g => f.key ≠ g.key := by decide
  have hfields : j.check.messagesAt p =
      JobField.checked.flatMap fun f => (field f.key (f.check j)).messagesAt p := by
    rw [messagesAt, report_check, Violations.messagesAt_flatMap]
    rfl
  rw [hfields, List.nodup_flatMap]
  -- no two of the checks look at one field
  refine ⟨fun f _ => once_field.mpr (j.once_checkField f) p, hkeys.imp fun {f g} hne => ?_⟩
  exact fun said hf hg => apart_field_field.mpr (fun h => absurd h hne) p said hf hg

/-- What a job itself says of a reference is that it may not be blank, or that there is another one to
the same job. -/
theorem RefersAt.head?_mem {j : Job} {p : FieldPath} {target said : String}
    (h : j.RefersAt p target) (hs : said ∈ j.check.messagesAt p) :
    said.toList.head? ∈ [some 'm', some 'D'] := by
  cases h with
  | @dependency k d h =>
    have hfield : j.check.messagesAt [.field "job_dependencies", .index k, .field "job_name"] =
        (JobField.check j .jobDependencies).messagesAt [.index k, .field "job_name"] :=
      j.messagesAt_check (f := .jobDependencies) (by decide) _
    simp only [hfield, JobField.check, messagesAt_all_cons, messagesAt_all_nil, List.append_nil,
      List.mem_append] at hs
    rcases hs with hs | hs
    · rw [eq_of_mem_messagesAt_each (fun d => by simp [JobDependency.check]) hs]
      decide
    · obtain ⟨i, key, -, -, rfl⟩ := mem_messagesAt_noRepeats_field_iff.mp hs
      rw [Text.head?_append (Text.head?_append rfl)]
      decide
  | @action k a target h ht =>
    have hfield : j.check.messagesAt [.field "post_build_actions", .index k, .field "job_name"] =
        (each Action.check j.postBuildActions).messagesAt [.index k, .field "job_name"] :=
      j.messagesAt_check (f := .postBuildActions) (by decide) _
    have hname : ∀ a : Action, AsksFor "job_name" a.check := fun a => by
      obtain ⟨condition, kind⟩ := a
      cases kind <;> simp [Action.check, ActionKind.check]
    rw [hfield] at hs
    rw [eq_of_mem_messagesAt_each hname hs]
    decide

/-- A reference that is blank is reported by the job, any other one by the specification. -/
theorem apart_check_checkReferences (known : List String) (j : Job) :
    j.check.Apart (Spec.checkReferences known j) := by
  intro p said hj hs
  obtain ⟨target, hat, -⟩ := Spec.mem_messagesAt_checkReferences_iff.mp hs
  -- the two never begin alike, so it does not matter when each of them speaks
  have hown := hat.head?_mem hj
  have hother := Spec.head?_mem_of_mem_messagesAt_checkReferences hs
  simp only [List.mem_cons, List.not_mem_nil, or_false] at hown hother
  rcases hown with h | h <;> rw [h] at hother <;> exact absurd hother (by decide)

end Job

/-! ## Specifications -/

namespace Spec

theorem once_checkReferences (known : List String) (j : Job) : (checkReferences known j).Once := by
  have hreference : ∀ target, (checkReference known j.name target).Once := fun target =>
    elementary_checkReference.once
  simp [checkReferences, once_each, hreference]

theorem once_check (s : Spec) : s.check.Once := by
  have hnames : (each Job.check s.jobs).Apart (noRepeats "Duplicate job" (field "name") s.jobNames) :=
    apart_each_noRepeats Job.asksFor_check rfl
  have hown : (each Job.check s.jobs).Apart (each (checkReferences s.jobNames) s.jobs) :=
    apart_each_each (Job.apart_check_checkReferences s.jobNames)
  have hrepeated : (noRepeats "Duplicate job" (field "name") s.jobNames).Apart
      (each (checkReferences s.jobNames) s.jobs) :=
    (apart_each_noRepeats (asksFor_checkReferences s.jobNames) rfl).symm
  simp [check, once_each Job.once_check, once_each (once_checkReferences s.jobNames), hnames, hown,
    hrepeated]

/-- No two problems of a specification are the same. -/
theorem violations_nodup (s : Spec) : s.violations.Nodup := s.once_check.nodup_report

end Spec

end Pipeline
