import Pipeline.Proofs.Check.References

/-!
# Reports of repeated keys

Many lists of a specification have entries that are told apart by a key. Each such list is a
`KeyList`: where it stands, where an entry has its key, by what label a repeated key is introduced,
and the keys.

* `Job.Keyed`, `Spec.Keyed`: the lists of a job and of a specification.
* `Check.Announces`: a check says of a list just which of its keys are repeated. That is so of the
  check for repeated keys, and of every check that has it as a part, if the other parts are
  `Check.Silent` about the list. Of the key of an entry they say at most that it may not be empty
  (`Check.AsksFor`).
* `Spec.repetitions`: which reports of repeated keys there are.
-/

namespace Pipeline

/-! ## Lists of keys -/

/-- A message introduces a key by a label. -/
def Introduces (label message : String) : Prop := (label ++ ": ").toList <+: message.toList

instance (label message : String) : Decidable (Introduces label message) :=
  inferInstanceAs (Decidable (_ <+: _))

/-- What is introduced by a label begins as the label does. -/
theorem Introduces.head?_eq {label message : String} {c : Char} (h : Introduces label message)
    (hl : label.toList.head? = some c) : message.toList.head? = some c := by
  obtain ⟨rest, h⟩ := h
  rw [← h, List.head?_append, Text.head?_append hl, Option.some_or]

/-- A list of keys that may not be repeated. -/
structure KeyList where
  /-- Where the list stands. -/
  path : FieldPath
  /-- Where an entry of the list has its key. -/
  place : FieldPath
  /-- What introduces a key that is repeated. -/
  label : String
  keys : List String

namespace KeyList

variable (l : KeyList)

/-- Where the key of an entry stands. -/
def keyPath (i : Nat) : FieldPath := l.path ++ .index i :: l.place

/-- What is said of a key that is repeated. -/
def message (key : String) : String := l.label ++ ": " ++ key

/-- What is said of the key of an entry: nothing, or that it is repeated. -/
def announcement (i : Nat) : List String := ((repeatedAt? l.keys i).map l.message).toList

/-- The list, if it stands inside of a value at a path. -/
def below (q : FieldPath) : KeyList := { l with path := q ++ l.path }

/-- A problem is that the key of an entry is repeated. -/
def ReportsAt (i : Nat) (v : Violation) : Prop := v.path = l.keyPath i ∧ Introduces l.label v.message

instance (i : Nat) (v : Violation) : Decidable (l.ReportsAt i v) := inferInstanceAs (Decidable (_ ∧ _))

/-- A problem is that the key of some entry is repeated. -/
def Reports (v : Violation) : Prop := ∃ i < l.keys.length, l.ReportsAt i v

instance (v : Violation) : Decidable (l.Reports v) := inferInstanceAs (Decidable (∃ i < _, _))

theorem introduces_message (key : String) : Introduces l.label (l.message key) := by
  simp [Introduces, message]

end KeyList

namespace Check

variable {c : Check} {cs : List Check} {l : KeyList} {name key label label' : String}
  {keys keys' : List String} {i n : Nat} {q place : FieldPath}

/-- What the check says of the keys of a list is which of them are repeated. -/
def Announces (c : Check) (l : KeyList) : Prop :=
  ∀ i, ((c.messagesAt (l.keyPath i)).filter fun said => Introduces l.label said) = l.announcement i

/-- The check does not say of any key of a list that it is repeated. -/
def Silent (c : Check) (l : KeyList) : Prop :=
  ∀ i, ∀ said ∈ c.messagesAt (l.keyPath i), ¬ Introduces l.label said

/-- The check says of a field at most that it may not be empty. -/
def AsksFor (name : String) (c : Check) : Prop :=
  ∀ said ∈ c.messagesAt [.field name], said = emptyMessage

/-! ## What is said of the fields of an entry -/

@[simp] theorem asksFor_pass : AsksFor key pass := nofun

@[simp] theorem asksFor_all_nil : AsksFor key (all []) := nofun

@[simp] theorem asksFor_all_cons [Relocatable (all cs)] :
    AsksFor key (all (c :: cs)) ↔ AsksFor key c ∧ AsksFor key (all cs) := by
  simp only [AsksFor, messagesAt_all_cons, List.forall_mem_append]

@[simp] theorem asksFor_optional {α : Type} {c : α → Check} {o : Option α} :
    AsksFor key (optional c o) ↔ ∀ a, o = some a → AsksFor key (c a) := by
  cases o <;> simp [AsksFor]

@[simp] theorem asksFor_field_notEmpty {s : String} : AsksFor key (field name (notEmpty s)) := by
  intro said hs
  obtain ⟨p, -, hs⟩ := mem_messagesAt_field_iff.mp hs
  exact eq_of_mem_messagesAt_notEmpty hs

@[simp] theorem asksFor_field_of_ne [Relocatable c] (h : name ≠ key) : AsksFor key (field name c) := by
  simp [AsksFor, h]

theorem eq_of_mem_messagesAt_each {α : Type} {c : α → Check} [∀ a, Relocatable (c a)]
    {as : List α} {said : String} (h : ∀ a, AsksFor name (c a))
    (hs : said ∈ (each c as).messagesAt [.index i, .field name]) : said = emptyMessage := by
  obtain ⟨_, a, q, hp, -, hs⟩ := mem_messagesAt_each_iff.mp hs
  obtain ⟨-, rfl⟩ := List.cons.inj hp
  exact h a said hs

/-! ## Silence -/

theorem Silent.filter_eq_nil (h : c.Silent l) (i : Nat) :
    ((c.messagesAt (l.keyPath i)).filter fun said => Introduces l.label said) = [] :=
  List.filter_eq_nil_iff.mpr fun said hs => by simpa using h i said hs

theorem silent_of_eq_nil (h : ∀ i, c.messagesAt (l.keyPath i) = []) : c.Silent l := by
  intro i said hs
  rw [h] at hs
  cases hs

@[simp] theorem silent_all_nil : (all []).Silent l := silent_of_eq_nil fun _ => rfl

@[simp] theorem silent_all_cons [Relocatable (all cs)] :
    (all (c :: cs)).Silent l ↔ c.Silent l ∧ (all cs).Silent l := by
  simp only [Silent, messagesAt_all_cons, List.forall_mem_append, forall_and]

theorem silent_field_of_ne [Relocatable c] (hl : l.path = .field key :: q) (h : name ≠ key) :
    (field name c).Silent l :=
  silent_of_eq_nil fun i => by simp [KeyList.keyPath, hl, h]

theorem Silent.field [Relocatable c] (h : c.Silent ⟨q, place, label, keys⟩) (name : String) :
    (Check.field name c).Silent ⟨.field name :: q, place, label, keys⟩ := by
  intro i said hs
  have hp : KeyList.keyPath ⟨.field name :: q, place, label, keys⟩ i =
      .field name :: KeyList.keyPath ⟨q, place, label, keys⟩ i := rfl
  rw [hp, messagesAt_field_field, if_pos rfl] at hs
  exact h i said hs

/-- What begins with another letter than the label does not introduce a key. -/
theorem silent_each_of_asksFor {α : Type} {c : α → Check} [∀ a, Relocatable (c a)] {as : List α}
    (h : ∀ a, AsksFor name (c a)) (hl : label.toList.head? = some 'D') :
    (each c as).Silent ⟨[], [.field name], label, keys⟩ := by
  intro i said hs hi
  have hhead := hi.head?_eq hl
  rw [eq_of_mem_messagesAt_each h hs] at hhead
  exact absurd hhead (by decide)

theorem silent_noRepeats_of_ne (h : key ≠ name) :
    (noRepeats label' (Check.field key) keys').Silent ⟨[], [.field name], label, keys⟩ :=
  silent_of_eq_nil fun i => by cases hk : repeatedAt? keys' i <;> simp [KeyList.keyPath, hk, h]

/-- The lists inside of the entries are not the list of the entries. -/
theorem silent_noRepeats_inside (hl : l.path = .index n :: .field name :: q) (h : key ≠ name) :
    (noRepeats label' (Check.field key) keys').Silent l :=
  silent_of_eq_nil fun i => by cases hk : repeatedAt? keys' n <;> simp [KeyList.keyPath, hl, hk, h]

/-! ## Announcements -/

theorem Announces.all_cons [Relocatable (all cs)] (h : c.Announces l) (hs : (all cs).Silent l) :
    (all (c :: cs)).Announces l := fun i => by
  rw [messagesAt_all_cons, List.filter_append, h i, hs.filter_eq_nil, List.append_nil]

theorem Silent.all_cons [Relocatable (all cs)] (hs : c.Silent l) (h : (all cs).Announces l) :
    (all (c :: cs)).Announces l := fun i => by
  rw [messagesAt_all_cons, List.filter_append, h i, hs.filter_eq_nil, List.nil_append]

theorem Announces.field [Relocatable c] (h : c.Announces ⟨q, place, label, keys⟩) (name : String) :
    (Check.field name c).Announces ⟨.field name :: q, place, label, keys⟩ := fun i => by
  have hp : KeyList.keyPath ⟨.field name :: q, place, label, keys⟩ i =
      .field name :: KeyList.keyPath ⟨q, place, label, keys⟩ i := rfl
  rw [hp, messagesAt_field_field, if_pos rfl]
  exact h i

theorem Announces.each {α : Type} {c : α → Check} [∀ a, Relocatable (c a)] {as : List α} {a : α}
    (ha : as[n]? = some a) (h : (c a).Announces ⟨q, place, label, keys⟩) :
    (Check.each c as).Announces ⟨.index n :: q, place, label, keys⟩ := fun i => by
  have hp : KeyList.keyPath ⟨.index n :: q, place, label, keys⟩ i =
      .index n :: KeyList.keyPath ⟨q, place, label, keys⟩ i := rfl
  rw [hp, messagesAt_each_index, ha]
  exact h i

theorem announces_noRepeats {lead : Check → Check} [∀ message, Relocatable (lead (fail message))]
    (h : ∀ message, (lead (fail message)).messagesAt place = [message]) :
    (noRepeats label lead keys).Announces ⟨[], place, label, keys⟩ := fun i => by
  have hp : KeyList.keyPath ⟨[], place, label, keys⟩ i = .index i :: place := rfl
  rw [hp, messagesAt_noRepeats_index, KeyList.announcement]
  cases repeatedAt? keys i with
  | none => rfl
  | some key =>
    have hi := KeyList.introduces_message ⟨[], place, label, keys⟩ key
    rw [Option.elim_some, h]
    exact List.filter_cons_of_pos (decide_eq_true hi)

theorem announces_noRepeats_field :
    (noRepeats label (Check.field name) keys).Announces ⟨[], [.field name], label, keys⟩ :=
  announces_noRepeats fun _ => by simp

/-- A list whose entries are checked, and are told apart by one of their fields. -/
theorem announces_each_noRepeats {α : Type} {c : α → Check} [∀ a, Relocatable (c a)] {as : List α}
    (h : ∀ a, AsksFor name (c a)) (hl : label.toList.head? = some 'D') :
    (all [Check.each c as, noRepeats label (Check.field name) keys]).Announces
      ⟨[], [.field name], label, keys⟩ :=
  (silent_each_of_asksFor h hl).all_cons (announces_noRepeats_field.all_cons silent_all_nil)

/-- A list inside of an entry of such a list. -/
theorem Announces.each_noRepeats {α : Type} {c : α → Check} [∀ a, Relocatable (c a)]
    {as : List α} {a : α} (ha : as[n]? = some a)
    (h : (c a).Announces ⟨.field key :: q, place, label, keys⟩) (hn : name ≠ key) :
    (all [Check.each c as, noRepeats label' (Check.field name) keys']).Announces
      ⟨.index n :: .field key :: q, place, label, keys⟩ :=
  (h.each ha).all_cons (silent_all_cons.mpr ⟨silent_noRepeats_inside rfl hn, silent_all_nil⟩)

end Check

open Check

/-! ## The parts of a job -/

namespace ParamSpec

theorem asksFor_check (p : ParamSpec) : AsksFor "name" p.check := by
  have hkind : AsksFor "name" (checkKind p.kind) := by
    cases p.kind <;> simp [checkKind]
  simp [check, hkind]

theorem announces_checkChoices (choices : List String) :
    (checkChoices choices).Announces ⟨[], [], "Duplicate choice", choices⟩ :=
  Silent.all_cons (silent_of_eq_nil fun _ => messagesAt_require_cons)
    ((announces_noRepeats fun _ => rfl).all_cons silent_all_nil)

theorem announces_check {p : ParamSpec} {choices : List String} (h : p.kind = .choice choices) :
    p.check.Announces ⟨[.field "kind", .field "choices"], [], "Duplicate choice", choices⟩ := by
  have hname : (field "name" (notEmpty p.name)).Silent
      ⟨[.field "kind", .field "choices"], [], "Duplicate choice", choices⟩ :=
    silent_field_of_ne rfl (by decide)
  have hdefault : (field "default_value" (optional (checkDefault p.kind) p.defaultValue)).Silent
      ⟨[.field "kind", .field "choices"], [], "Duplicate choice", choices⟩ :=
    silent_field_of_ne rfl (by decide)
  have hkind : (checkKind p.kind).Announces
      ⟨[.field "kind", .field "choices"], [], "Duplicate choice", choices⟩ := by
    rw [h]
    exact ((announces_checkChoices choices).field "choices").field "kind"
  exact hname.all_cons (hkind.all_cons (silent_all_cons.mpr ⟨hdefault, silent_all_nil⟩))

end ParamSpec

theorem ParamSupply.announces_checkAll (supplies : List ParamSupply) :
    (checkAll supplies).Announces
      ⟨[], [.field "name"], "Duplicate param", supplies.map ParamSupply.name⟩ :=
  announces_each_noRepeats (fun p => by simp [check]) rfl

theorem JobDependency.announces_check (d : JobDependency) :
    d.check.Announces ⟨[.field "job_params"], [.field "name"], "Duplicate param",
      d.jobParams.map ParamSupply.name⟩ :=
  Silent.all_cons (silent_field_of_ne rfl (by decide))
    (((ParamSupply.announces_checkAll _).field "job_params").all_cons silent_all_nil)

theorem Action.announces_check {a : Action} {jobName : String} {supplies : List ParamSupply}
    (h : a.kind = .runJob jobName supplies) :
    a.check.Announces ⟨[.field "job_params"], [.field "name"], "Duplicate param",
      supplies.map ParamSupply.name⟩ := by
  have hkind : a.kind.check.Announces ⟨[.field "job_params"], [.field "name"], "Duplicate param",
      supplies.map ParamSupply.name⟩ := by
    rw [h]
    exact Silent.all_cons (silent_field_of_ne rfl (by decide))
      (((ParamSupply.announces_checkAll _).field "job_params").all_cons silent_all_nil)
  exact Silent.all_cons (silent_field_of_ne rfl (by decide)) (hkind.all_cons silent_all_nil)

theorem Service.announces_check (s : Service) :
    s.check.Announces ⟨[.field "env_vars"], [.field "name"], "Duplicate environment variable",
      s.envVars.map EnvVar.name⟩ := by
  have hvars : (field "env_vars" (each EnvVar.check s.envVars)).Silent ⟨[.field "env_vars"],
      [.field "name"], "Duplicate environment variable", s.envVars.map EnvVar.name⟩ :=
    (silent_each_of_asksFor (fun v => by simp [EnvVar.check]) rfl).field "env_vars"
  have hnames : (field "env_vars" (noRepeats "Duplicate environment variable" (field "name")
      (s.envVars.map EnvVar.name))).Announces ⟨[.field "env_vars"], [.field "name"],
        "Duplicate environment variable", s.envVars.map EnvVar.name⟩ :=
    announces_noRepeats_field.field "env_vars"
  -- the five texts of a service
  iterate 5 refine Silent.all_cons (silent_field_of_ne rfl (by decide)) ?_
  exact hvars.all_cons (hnames.all_cons silent_all_nil)

/-! ## Jobs -/

namespace Job

/-- The lists of a job whose entries are told apart by a key. Of its caches, those are the keys and,
apart from them, the paths. -/
inductive Keyed (j : Job) : KeyList → Prop where
  | cacheKeys :
    j.Keyed ⟨[.field "caches"], [.field "key"], "Duplicate key", j.caches.map Cache.key⟩
  | cachePaths :
    j.Keyed ⟨[.field "caches"], [.field "path"], "Duplicate path", j.caches.map Cache.path⟩
  | jobDependencies :
    j.Keyed ⟨[.field "job_dependencies"], [.field "job_name"], "Duplicate dependency",
      j.dependencyNames⟩
  | paramSpecs :
    j.Keyed ⟨[.field "param_specs"], [.field "name"], "Duplicate parameter spec",
      j.paramSpecs.map ParamSpec.name⟩
  | services :
    j.Keyed ⟨[.field "services"], [.field "name"], "Duplicate service", j.services.map Service.name⟩
  | reports :
    j.Keyed ⟨[.field "reports"], [.field "report_name"], "Duplicate report",
      j.reports.map Report.reportName⟩
  | choices {k : Nat} {p : ParamSpec} {choices : List String} (h : j.paramSpecs[k]? = some p)
      (hp : p.kind = .choice choices) :
    j.Keyed ⟨[.field "param_specs", .index k, .field "kind", .field "choices"], [],
      "Duplicate choice", choices⟩
  | envVars {k : Nat} {s : Service} (h : j.services[k]? = some s) :
    j.Keyed ⟨[.field "services", .index k, .field "env_vars"], [.field "name"],
      "Duplicate environment variable", s.envVars.map EnvVar.name⟩
  | dependencyParams {k : Nat} {d : JobDependency} (h : j.jobDependencies[k]? = some d) :
    j.Keyed ⟨[.field "job_dependencies", .index k, .field "job_params"], [.field "name"],
      "Duplicate param", d.jobParams.map ParamSupply.name⟩
  | actionParams {k : Nat} {a : Action} {jobName : String} {supplies : List ParamSupply}
      (h : j.postBuildActions[k]? = some a) (ha : a.kind = .runJob jobName supplies) :
    j.Keyed ⟨[.field "post_build_actions", .index k, .field "job_params"], [.field "name"],
      "Duplicate param", supplies.map ParamSupply.name⟩

variable {j : Job} {l : KeyList}

theorem Keyed.head?_label (h : j.Keyed l) : l.label.toList.head? = some 'D' := by
  cases h <;> (dsimp only; rfl)

/-- None of the lists is the name of the job. -/
theorem Keyed.exists_path (h : j.Keyed l) : ∃ name q, l.path = .field name :: q ∧ "name" ≠ name := by
  cases h <;> exact ⟨_, _, rfl, by decide⟩

theorem asksFor_check (j : Job) : AsksFor "name" j.check := fun _ hs =>
  have hname := j.messagesAt_check (f := .name) (by decide) []
  eq_of_mem_messagesAt_notEmpty (hname ▸ hs)

/-- What the check of a field says of a list in it, that of the job says. -/
theorem announces_check_of_field {f : JobField} (hf : f ∈ JobField.checked)
    {q place : FieldPath} {label : String} {keys : List String}
    (h : (f.check j).Announces ⟨q, place, label, keys⟩) :
    j.check.Announces ⟨.field f.key :: q, place, label, keys⟩ := fun i => by
  have hp : KeyList.keyPath ⟨.field f.key :: q, place, label, keys⟩ i =
      .field f.key :: KeyList.keyPath ⟨q, place, label, keys⟩ i := rfl
  rw [hp, j.messagesAt_check hf]
  exact h i

theorem announces_caches_keys (j : Job) : (JobField.check j .caches).Announces
    ⟨[], [.field "key"], "Duplicate key", j.caches.map Cache.key⟩ := by
  have heach : (each Cache.check j.caches).Silent
      ⟨[], [.field "key"], "Duplicate key", j.caches.map Cache.key⟩ :=
    silent_each_of_asksFor (fun c => by simp [Cache.check]) rfl
  have hpaths : (noRepeats "Duplicate path" (field "path") (j.caches.map Cache.path)).Silent
      ⟨[], [.field "key"], "Duplicate key", j.caches.map Cache.key⟩ :=
    silent_noRepeats_of_ne (by decide)
  exact heach.all_cons (announces_noRepeats_field.all_cons
    (silent_all_cons.mpr ⟨hpaths, silent_all_nil⟩))

theorem announces_caches_paths (j : Job) : (JobField.check j .caches).Announces
    ⟨[], [.field "path"], "Duplicate path", j.caches.map Cache.path⟩ := by
  have heach : (each Cache.check j.caches).Silent
      ⟨[], [.field "path"], "Duplicate path", j.caches.map Cache.path⟩ :=
    silent_each_of_asksFor (fun c => by simp [Cache.check]) rfl
  have hkeys : (noRepeats "Duplicate key" (field "key") (j.caches.map Cache.key)).Silent
      ⟨[], [.field "path"], "Duplicate path", j.caches.map Cache.path⟩ :=
    silent_noRepeats_of_ne (by decide)
  exact heach.all_cons (hkeys.all_cons (announces_noRepeats_field.all_cons silent_all_nil))

theorem Keyed.announces_check (h : j.Keyed l) : j.check.Announces l := by
  cases h with
  | cacheKeys =>
    exact announces_check_of_field (f := .caches) (by decide) j.announces_caches_keys
  | cachePaths =>
    exact announces_check_of_field (f := .caches) (by decide) j.announces_caches_paths
  | jobDependencies =>
    exact announces_check_of_field (f := .jobDependencies) (by decide)
      (announces_each_noRepeats (fun d => by simp [JobDependency.check]) rfl)
  | paramSpecs =>
    exact announces_check_of_field (f := .paramSpecs) (by decide)
      (announces_each_noRepeats ParamSpec.asksFor_check rfl)
  | services =>
    exact announces_check_of_field (f := .services) (by decide)
      (announces_each_noRepeats (fun s => by simp [Service.check]) rfl)
  | reports =>
    exact announces_check_of_field (f := .reports) (by decide)
      (announces_each_noRepeats (fun r => by simp [Report.check]) rfl)
  | choices h hp =>
    exact announces_check_of_field (f := .paramSpecs) (by decide)
      ((ParamSpec.announces_check hp).each_noRepeats h (by decide))
  | envVars h =>
    exact announces_check_of_field (f := .services) (by decide)
      ((Service.announces_check _).each_noRepeats h (by decide))
  | dependencyParams h =>
    exact announces_check_of_field (f := .jobDependencies) (by decide)
      ((JobDependency.announces_check _).each_noRepeats h (by decide))
  | actionParams h ha =>
    exact announces_check_of_field (f := .postBuildActions) (by decide)
      ((Action.announces_check ha).each h)

end Job

/-! ## Specifications -/

/-- The problems at a path whose messages are such and such. -/
theorem Violations.filter_path_eq (found : Violations) (p : FieldPath) (good : String → Prop)
    [DecidablePred good] :
    (found.filter fun v => v.path = p ∧ good v.message) =
      ((found.messagesAt p).filter fun said => good said).map fun said => ⟨p, said⟩ := by
  have hkept : (found.filter fun v => v.path = p ∧ good v.message) =
      found.filter fun v => decide (good v.message) && decide (v.path = p) :=
    List.filter_congr fun v _ => by rw [Bool.decide_and, Bool.and_comm]
  rw [messagesAt, List.filter_map, List.map_map, List.filter_filter, hkept]
  refine (List.map_id _).symm.trans (List.map_congr_left fun v hv => ?_)
  obtain ⟨-, hv⟩ := List.mem_filter.mp hv
  obtain ⟨-, hv⟩ := Bool.and_eq_true_iff.mp hv
  rw [id, Function.comp_apply, ← of_decide_eq_true hv]

/-- Conditions no two of which hold of one entry hold of as many entries together as one after the
other. -/
theorem length_filter_exists_lt_succ {α : Type} {good : Nat → α → Prop}
    [∀ i a, Decidable (good i a)] (hone : ∀ a i k, good i a → good k a → i = k) (n : Nat)
    (as : List α) :
    (as.filter fun a => ∃ i < n + 1, good i a).length =
      (as.filter fun a => ∃ i < n, good i a).length + (as.filter fun a => good n a).length := by
  induction as with
  | nil => rfl
  | cons a as ih =>
    simp only [Nat.exists_lt_succ_right, Bool.decide_or] at ih ⊢
    -- an entry counts on one side only: if it is good for `n`, it is for nothing less
    by_cases hn : good n a
    · have hlt : ¬ ∃ i < n, good i a := by
        rintro ⟨i, hi, hg⟩
        exact hi.ne (hone a i n hg hn)
      simp [hn, hlt, ih]
      omega
    · by_cases hlt : ∃ i < n, good i a
      · simp [hn, hlt, ih]
        omega
      · simp [hn, hlt, ih]

theorem length_filter_exists_lt_eq {α β : Type} {good : Nat → α → Prop} {fine : Nat → β → Prop}
    [∀ i a, Decidable (good i a)] [∀ i b, Decidable (fine i b)] {as : List α} {bs : List β}
    (hgood : ∀ a i k, good i a → good k a → i = k) (hfine : ∀ b i k, fine i b → fine k b → i = k)
    (h : ∀ i, (as.filter fun a => good i a).length = (bs.filter fun b => fine i b).length) (n : Nat) :
    (as.filter fun a => ∃ i < n, good i a).length = (bs.filter fun b => ∃ i < n, fine i b).length := by
  induction n with
  | zero => simp
  | succ n ih => rw [length_filter_exists_lt_succ hgood, length_filter_exists_lt_succ hfine, ih, h n]

namespace Spec

/-- The lists of a specification whose entries are told apart by a key: the jobs by their names,
and the lists of the jobs. -/
inductive Keyed (s : Spec) : KeyList → Prop where
  | jobs : s.Keyed ⟨[.field "jobs"], [.field "name"], "Duplicate job", s.jobNames⟩
  | ofJob {n : Nat} {j : Job} {l : KeyList} (h : s.jobs[n]? = some j) (hl : j.Keyed l) :
    s.Keyed (l.below [.field "jobs", .index n])

variable {s : Spec} {l : KeyList}

theorem asksFor_checkReferences (known : List String) (j : Job) :
    AsksFor "name" (checkReferences known j) := by
  simp [checkReferences]

theorem announces_check_jobs (s : Spec) :
    s.check.Announces ⟨[.field "jobs"], [.field "name"], "Duplicate job", s.jobNames⟩ := by
  have hjobs : (each Job.check s.jobs).Silent ⟨[], [.field "name"], "Duplicate job", s.jobNames⟩ :=
    silent_each_of_asksFor Job.asksFor_check rfl
  have hreferences : (each (checkReferences s.jobNames) s.jobs).Silent
      ⟨[], [.field "name"], "Duplicate job", s.jobNames⟩ :=
    silent_each_of_asksFor (asksFor_checkReferences s.jobNames) rfl
  exact Announces.field (hjobs.all_cons (announces_noRepeats_field.all_cons
    (silent_all_cons.mpr ⟨hreferences, silent_all_nil⟩))) "jobs"

/-- Of a reference it is not said that it repeats another one. -/
theorem not_introduces_of_mem_checkReferences {known : List String} {j : Job} {p : FieldPath}
    {label said : String} (hs : said ∈ (checkReferences known j).messagesAt p)
    (hl : label.toList.head? = some 'D') : ¬ Introduces label said := by
  intro hi
  have hhead := head?_mem_of_mem_messagesAt_checkReferences hs
  rw [hi.head?_eq hl] at hhead
  exact absurd hhead (by decide)

theorem Keyed.announces_check (h : s.Keyed l) : s.check.Announces l := by
  cases h with
  | jobs => exact s.announces_check_jobs
  | @ofJob n j l h hl =>
    intro i
    -- three checks look into a job: its own one, the one for repeated names, which reports at the name
    -- of the job only, and that of the references, none of whose messages begins as a label does
    have hp : (l.below [.field "jobs", .index n]).keyPath i =
        .field "jobs" :: .index n :: l.keyPath i := rfl
    have hnames : (noRepeats "Duplicate job" (field "name") s.jobNames).messagesAt
        (.index n :: l.keyPath i) = [] := by
      obtain ⟨name, q, hl, hn⟩ := hl.exists_path
      rw [KeyList.keyPath, hl]
      cases hk : repeatedAt? s.jobNames n <;> simp [hk, hn]
    have hreferences : (((checkReferences s.jobNames j).messagesAt (l.keyPath i)).filter fun said =>
        Introduces l.label said) = [] :=
      List.filter_eq_nil_iff.mpr fun said hs => by
        simpa using not_introduces_of_mem_checkReferences hs hl.head?_label
    rw [hp, messagesAt_check h, hnames, List.append_nil, List.filter_append]
    refine Eq.trans (congrArg₂ _ (hl.announces_check i) hreferences) ?_
    rw [List.append_nil]
    rfl

/-- What is reported of the key of an entry. -/
theorem Keyed.filter_reportsAt (h : s.Keyed l) (i : Nat) :
    (s.violations.filter fun v => l.ReportsAt i v) =
      ((repeatedAt? l.keys i).map fun key => (⟨l.keyPath i, l.message key⟩ : Violation)).toList := by
  have hmessages : ((s.violations.messagesAt (l.keyPath i)).filter fun said =>
      Introduces l.label said) = l.announcement i := h.announces_check i
  have hfilter : (s.violations.filter fun v => l.ReportsAt i v) = _ :=
    s.violations.filter_path_eq (l.keyPath i) (Introduces l.label)
  rw [hfilter, hmessages, KeyList.announcement]
  cases repeatedAt? l.keys i <;> rfl

/-- There are as many reports as repetitions. -/
theorem Keyed.length_filter_reports (h : s.Keyed l) :
    (s.violations.filter fun v => l.Reports v).length = (duplicates l.keys).length := by
  have hplaces : ∀ e ∈ duplicates l.keys, ∃ i < l.keys.length, e.1 = i := by
    rintro ⟨i, key⟩ he
    exact ⟨i, (List.getElem?_eq_some_iff.mp (getElem?_of_mem_duplicates he)).1, rfl⟩
  calc (s.violations.filter fun v => l.Reports v).length
      = ((duplicates l.keys).filter fun e => ∃ i < l.keys.length, e.1 = i).length := by
        refine length_filter_exists_lt_eq ?_ (by rintro e i k rfl rfl; rfl) ?_ l.keys.length
        · rintro v i k ⟨hi, -⟩ ⟨hk, -⟩
          simpa [KeyList.keyPath] using hi.symm.trans hk
        · intro i
          rw [h.filter_reportsAt, filter_duplicates]
          cases repeatedAt? l.keys i <;> rfl
    _ = (duplicates l.keys).length := by
        rw [List.filter_eq_self.mpr fun e he => decide_eq_true (hplaces e he)]

/-- Of each list whose entries are told apart by a key, a key is reported at the entries that have it,
but for the first one, once at each of them, and named by the report. So there are as many reports as
keys more than different keys, and they are the same in all specifications that have the list,
whatever else these have: those of the keys of the caches do not depend on their paths, and those of
their paths not on their keys. -/
theorem repetitions (s : Spec) (l : KeyList) (h : s.Keyed l) :
    (∀ i key, l.keys[i]? = some key → (s.violations.filter fun v => l.ReportsAt i v) =
      if ∃ k < i, l.keys[k]? = some key then [⟨l.keyPath i, l.message key⟩] else []) ∧
    (∀ i, l.keys.length ≤ i → (s.violations.filter fun v => l.ReportsAt i v) = []) ∧
    (s.violations.filter fun v => l.Reports v).length = l.keys.length - l.keys.toFinset.card ∧
    ∀ s' : Spec, s'.Keyed l → ∀ i, (s'.violations.filter fun v => l.ReportsAt i v) =
      s.violations.filter fun v => l.ReportsAt i v := by
  refine ⟨fun i key hkey => ?_, fun i hi => ?_, ?_, fun s' h' i => ?_⟩
  · rw [h.filter_reportsAt, repeatedAt?, hkey, Option.filter_some]
    simp only [mem_take_iff, decide_eq_true_eq]
    split <;> rfl
  · rw [h.filter_reportsAt, repeatedAt?_of_le hi]
    rfl
  · rw [h.length_filter_reports, length_duplicates]
  · rw [h'.filter_reportsAt, h.filter_reportsAt]

/-- A job that keeps files at the given paths, under keys some of which are blank. -/
def hoarder (paths : List String) : Job :=
  { Job.ofCommands "j" "i" ["c"] with
    caches := (["k", "k", " ", "k", " "].zip paths).map fun e => ⟨e.1, e.2⟩ }

/-- The keys under which the files are kept. -/
def hoardedKeys : KeyList :=
  ⟨[.field "jobs", .index 0, .field "caches"], [.field "key"], "Duplicate key",
    ["k", "k", " ", "k", " "]⟩

theorem repetitions_hoarder :
    let mixed := ofJobs [hoarder ["p", "q", "p", "q", "p"]]
    let tidy := ofJobs [hoarder ["1", "2", "3", "4", "5"]]
    mixed.Keyed hoardedKeys ∧ tidy.Keyed hoardedKeys ∧
    (mixed.violations.filter fun v => hoardedKeys.ReportsAt 0 v) = [] ∧
    (mixed.violations.filter fun v => hoardedKeys.ReportsAt 3 v) =
      [⟨hoardedKeys.keyPath 3, "Duplicate key: k"⟩] ∧
    (mixed.violations.filter fun v => hoardedKeys.ReportsAt 5 v) = [] ∧
    (mixed.violations.filter fun v => hoardedKeys.Reports v).length = 3 ∧
    (tidy.violations.filter fun v => hoardedKeys.ReportsAt 4 v) =
      mixed.violations.filter fun v => hoardedKeys.ReportsAt 4 v := by
  intro mixed tidy
  have hmixed : mixed.Keyed hoardedKeys :=
    Keyed.ofJob (s := mixed) (j := hoarder ["p", "q", "p", "q", "p"]) (n := 0) rfl .cacheKeys
  have htidy : tidy.Keyed hoardedKeys :=
    Keyed.ofJob (s := tidy) (j := hoarder ["1", "2", "3", "4", "5"]) (n := 0) rfl .cacheKeys
  obtain ⟨hat, hbehind, hnumber, hsame⟩ := repetitions mixed hoardedKeys hmixed
  refine ⟨hmixed, htidy, ?_, ?_, hbehind 5 (by decide), hnumber.trans (by decide),
    hsame tidy htidy 4⟩
  · exact (hat 0 "k" rfl).trans (if_neg (by decide))
  · exact (hat 3 "k" rfl).trans (if_pos ⟨0, by decide, rfl⟩)

end Spec

end Pipeline
