import Mathlib.Data.List.Induction
import Mathlib.Tactic.FinCases
import Pipeline.Job.Draft

/-!
# The table of a draft is never stale

A draft makes the table of its parameters once and keeps it, and a copy of a draft takes the table
along.

* `ParamSpec.Table.IsOf`: a table has one entry for each name, the last parameter of that name;
  `ParamSpec.isOf_lookup` says that so it is with every table that is made.
* `JobDraft.Fresh`: the table that is kept, if there is one, is that of the current parameters.
* `JobDraft.step`, `JobDraft.run`: what can be done to drafts, and one thing after the other.
  Whatever is done, each draft remains fresh (`JobDraft.fresh_of_step`), so
  `JobDraft.isOf_paramTable`: each table that a draft is asked for is that of its parameters.
-/

namespace Pipeline

namespace ParamSpec

/-! ## Tables -/

/-- `p` is the last parameter of the given name. -/
def IsLast (specs : List ParamSpec) (name : String) (p : ParamSpec) : Prop :=
  ∃ before after, specs = before ++ p :: after ∧ p.name = name ∧ ∀ q ∈ after, q.name ≠ name

/-- The table of the parameters of a list. -/
structure Table.IsOf (t : Table) (specs : List ParamSpec) : Prop where
  /-- No name has two entries. -/
  nodup : (t.map Prod.fst).Nodup
  /-- The names of the entries are those of the parameters. -/
  names : ∀ name, name ∈ t.map Prod.fst ↔ name ∈ specs.map ParamSpec.name
  /-- The entry of a name is the last parameter of that name. -/
  last : ∀ name p, (name, p) ∈ t ↔ IsLast specs name p

variable {specs : List ParamSpec} {t : Table} {name : String} {p q : ParamSpec}

/-- A parameter that is put at the end is the last one of its name, and does not matter to other
names. -/
theorem isLast_concat :
    IsLast (specs ++ [p]) name q ↔
      p.name = name ∧ q = p ∨ p.name ≠ name ∧ IsLast specs name q := by
  constructor
  · rintro ⟨before, after, he, hq, hafter⟩
    rcases List.eq_nil_or_concat after with rfl | ⟨front, r, rfl⟩
    · obtain ⟨-, hp⟩ := List.append_inj' he rfl
      cases hp
      exact .inl ⟨hq, rfl⟩
    · rw [List.concat_eq_append] at he hafter
      rw [← List.cons_append, ← List.append_assoc] at he
      obtain ⟨hspecs, hp⟩ := List.append_inj' he rfl
      cases hp
      have hfront : ∀ r ∈ front, r.name ≠ name := fun r hr => hafter r (List.mem_append_left _ hr)
      exact .inr ⟨hafter p (by simp), before, front, hspecs, hq, hfront⟩
  · rintro (⟨hp, rfl⟩ | ⟨hp, before, after, rfl, hq, hafter⟩)
    · exact ⟨specs, [], rfl, hp, nofun⟩
    · refine ⟨before, after ++ [p], by simp, hq, fun r hr => ?_⟩
      rcases List.mem_append.mp hr with hr | hr
      · exact hafter r hr
      · rwa [List.mem_singleton.mp hr]

theorem mem_set : (name, q) ∈ t.set p ↔
    p.name = name ∧ q = p ∨ p.name ≠ name ∧ (name, q) ∈ t := by
  by_cases h : p.name = name
  · subst h
    simp [Table.set]
  · simp [Table.set, h, Ne.symm h]

/-- Setting an entry gives the table of the list with one more parameter. -/
theorem Table.IsOf.set (h : t.IsOf specs) (p : ParamSpec) : (t.set p).IsOf (specs ++ [p]) where
  nodup := by
    have hkept : ((t.filter fun e => e.1 != p.name).map Prod.fst).Nodup :=
      (List.filter_sublist.map _).nodup h.nodup
    rw [Table.set, List.map_append, List.nodup_append]
    refine ⟨hkept, by simp, fun name hn other ho => ?_⟩
    obtain ⟨e, he, rfl⟩ := List.mem_map.mp hn
    rw [List.mem_singleton.mp ho]
    simpa using (List.mem_filter.mp he).2
  names name := by
    have hset : name ∈ (t.set p).map Prod.fst ↔ p.name = name ∨ name ∈ t.map Prod.fst := by
      simp only [List.mem_map, Prod.exists, exists_and_right, exists_eq_right, mem_set]
      by_cases hp : p.name = name <;> simp [hp]
    rw [hset, h.names, List.map_append, List.mem_append, or_comm, List.map_singleton,
      List.mem_singleton, eq_comm (a := name)]
  last name q := by rw [mem_set, isLast_concat, h.last]

theorem isOf_lookup (specs : List ParamSpec) : (lookup specs).IsOf specs := by
  induction specs using List.reverseRecOn with
  | nil => exact ⟨by simp [lookup], by simp [lookup], by simp [lookup, IsLast]⟩
  | append_singleton specs p ih =>
    have := ih.set p
    rwa [lookup, List.foldl_append]

end ParamSpec

namespace JobDraft

/-! ## Fresh drafts -/

/-- The table that is kept is the one that would be made now. -/
def Fresh (d : JobDraft) : Prop := ∀ t, d.table = some t → t = ParamSpec.lookup d.job.paramSpecs

/-- The draft with the fields of a job, but for the parameters. -/
def edit (d : JobDraft) (fields : Job) : JobDraft :=
  { d with job := { fields with paramSpecs := d.job.paramSpecs } }

variable {d d' : JobDraft}

theorem fresh_ofJob (j : Job) : (ofJob j).Fresh := nofun

theorem fresh_setParamSpecs (d : JobDraft) (specs : List ParamSpec) :
    (d.setParamSpecs specs).Fresh := nofun

theorem Fresh.paramTable_fst (h : d.Fresh) :
    d.paramTable.1 = ParamSpec.lookup d.job.paramSpecs := by
  unfold paramTable
  split
  · exact h _ ‹_›
  · rfl

theorem Fresh.paramTable_snd (h : d.Fresh) : d.paramTable.2.Fresh := by
  unfold paramTable
  split
  · exact h
  · rintro t ht
    cases ht
    rfl

/-- Nothing but the parameters matters to the table. -/
theorem Fresh.congr (h : d.Fresh) (ht : d'.table = d.table)
    (hs : d'.job.paramSpecs = d.job.paramSpecs) : d'.Fresh := by
  rwa [Fresh, ht, hs]

/-- No field that can be assigned is that of the parameters. -/
theorem paramSpecs_of_mem_assigners {e : String × (Source → Option (Job → Job))}
    (he : e ∈ assigners) {s : Source} {change : Job → Job} (h : e.2 s = some change) (j : Job) :
    (change j).paramSpecs = j.paramSpecs := by
  unfold assigners at he
  fin_cases he
  all_goals
    obtain ⟨_, -, rfl⟩ := Option.map_eq_some_iff.mp h
    rfl

theorem Fresh.assign? (h : d.Fresh) {field : String} {s : Source}
    (ha : d.assign? field s = some d') : d'.Fresh := by
  obtain ⟨change, hc, rfl⟩ := Option.map_eq_some_iff.mp ha
  obtain ⟨read, hread, hs⟩ := Option.bind_eq_some_iff.mp hc
  obtain ⟨before, after, he, -⟩ := List.lookup_eq_some_iff.mp hread
  have hmem : (field, read) ∈ assigners := by simp [he]
  exact h.congr rfl (paramSpecs_of_mem_assigners hmem hs d.job)

theorem Fresh.edit (h : d.Fresh) (fields : Job) : (d.edit fields).Fresh := h.congr rfl rfl

/-! ## Whatever is done -/

end JobDraft

/-- Something that is done to the drafts at hand. Drafts are told by their position. -/
inductive DraftStep where
  /-- A draft of a new job. -/
  | create (name image : String) (commands : List String)
  /-- A draft of a job that is read, if it can be read. -/
  | read (source : Source)
  /-- A copy of a draft. Both can be worked on from then on. -/
  | clone (draft : Nat)
  /-- Other parameters, in place or for a draft that is handed on. -/
  | setParamSpecs (draft : Nat) (specs : List ParamSpec)
  /-- A draft is asked for its table. -/
  | lookUp (draft : Nat)
  /-- A value is read for a field. If it cannot be read, the draft stays as it is. -/
  | assign (draft : Nat) (field : String) (value : Source)
  /-- Any values for any fields other than the parameters: those of the given job. -/
  | edit (draft : Nat) (fields : Job)

namespace JobDraft

/-- What becomes of the drafts. Nothing happens to a draft that there is not. -/
def step (ds : List JobDraft) : DraftStep → List JobDraft
  | .create name image commands => ds ++ [ofJob (.ofCommands name image commands)]
  | .read source => ds ++ ((Job.decode? source).map ofJob).toList
  | .clone n => ds ++ ds[n]?.toList
  | .setParamSpecs n specs => ds.modify n fun d => d.setParamSpecs specs
  | .lookUp n => ds.modify n fun d => d.paramTable.2
  | .assign n field value => ds.modify n fun d => (d.assign? field value).getD d
  | .edit n fields => ds.modify n fun d => d.edit fields

/-- The drafts at hand after some steps, of which there are none at first. -/
def run (steps : List DraftStep) : List JobDraft := steps.foldl step []

theorem forall_mem_append_toList {p : JobDraft → Prop} {ds : List JobDraft} {o : Option JobDraft}
    (h : ∀ d ∈ ds, p d) (ho : ∀ d, o = some d → p d) : ∀ d ∈ ds ++ o.toList, p d := by
  intro d hd
  rcases List.mem_append.mp hd with hd | hd
  · exact h d hd
  · exact ho d (Option.mem_toList.mp hd)

theorem forall_mem_modify {p : JobDraft → Prop} {ds : List JobDraft} {f : JobDraft → JobDraft}
    (h : ∀ d ∈ ds, p d) (hf : ∀ d, p d → p (f d)) (n : Nat) : ∀ d ∈ ds.modify n f, p d := by
  intro d hd
  obtain ⟨i, hi⟩ := List.mem_iff_getElem?.mp hd
  rw [List.getElem?_modify] at hi
  obtain ⟨e, he, rfl⟩ := Option.map_eq_some_iff.mp hi
  have := h e (List.mem_of_getElem? he)
  split
  · exact hf e this
  · exact this

/-- Whatever is done, drafts remain fresh. -/
theorem fresh_of_step {ds : List JobDraft} (h : ∀ d ∈ ds, d.Fresh) (a : DraftStep) :
    ∀ d ∈ step ds a, d.Fresh := by
  cases a with
  | create name image commands =>
    refine forall_mem_append_toList (o := some _) h fun d hd => ?_
    cases hd
    exact fresh_ofJob _
  | read source =>
    refine forall_mem_append_toList h fun d hd => ?_
    obtain ⟨j, -, rfl⟩ := Option.map_eq_some_iff.mp hd
    exact fresh_ofJob j
  | clone n => exact forall_mem_append_toList h fun d hd => h d (List.mem_of_getElem? hd)
  | setParamSpecs n specs => exact forall_mem_modify h (fun d _ => fresh_setParamSpecs d specs) n
  | lookUp n => exact forall_mem_modify h (fun _ hd => hd.paramTable_snd) n
  | assign n field value =>
    refine forall_mem_modify h (fun d hd => ?_) n
    cases ha : d.assign? field value with
    | none => exact hd
    | some d' => exact hd.assign? ha
  | edit n fields => exact forall_mem_modify h (fun _ hd => hd.edit fields) n

theorem fresh_of_run (steps : List DraftStep) : ∀ d ∈ run steps, d.Fresh := by
  induction steps using List.reverseRecOn with
  | nil => exact nofun
  | append_singleton steps a ih =>
    rw [run, List.foldl_append]
    exact fresh_of_step ih a

/-- Whatever was done before, the table that a draft is asked for is that of its parameters. -/
theorem isOf_paramTable (steps : List DraftStep) (d : JobDraft) (hd : d ∈ run steps) :
    d.paramTable.1.IsOf d.job.paramSpecs := by
  rw [(fresh_of_run steps d hd).paramTable_fst]
  exact ParamSpec.isOf_lookup d.job.paramSpecs

/-- Two parameters of one name, with another one between them. -/
def repeatedSpecs : List ParamSpec :=
  [.ofName "a", .ofName "b", { ParamSpec.ofName "a" with kind := .secret }]

/-- A draft is asked for its table and copied. The copy gets other parameters, and the fields of
the first draft other values. -/
def session : List DraftStep :=
  [.create "build" "rust" ["cargo build"], .setParamSpecs 0 repeatedSpecs, .lookUp 0, .clone 0,
    .setParamSpecs 1 [.ofName "c"], .edit 0 (.ofCommands "test" "rust" ["cargo test"]),
    .assign 0 "name" (.json false (.str "check")), .assign 0 "timeout" (.json false (.str "soon"))]

/-- The first draft in the end, with the table that was made before. -/
def checkDraft : JobDraft :=
  ⟨{ Job.ofCommands "check" "rust" ["cargo test"] with paramSpecs := repeatedSpecs },
    some [("b", .ofName "b"), ("a", { ParamSpec.ofName "a" with kind := .secret })]⟩

theorem isOf_paramTable_session :
    checkDraft ∈ run session ∧ checkDraft.paramTable.1.IsOf checkDraft.job.paramSpecs := by
  have h : checkDraft ∈ run session := by decide +kernel
  exact ⟨h, isOf_paramTable session checkDraft h⟩

end JobDraft

end Pipeline
