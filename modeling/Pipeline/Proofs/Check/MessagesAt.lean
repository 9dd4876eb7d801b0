import Pipeline.Proofs.Check.Independence
import Pipeline.Proofs.Duplicates

/-!
# What is said at one place

`Check.messagesAt`: the messages of a report that stand exactly at a path. Those of a combined check
are found by going along the path: the check of a field or of an entry says something only where the
path leads into that field or entry. The rules are for `simp`, which takes a check of a specification
apart down to the check of the value at the path.

* `Check.messagesAt_field_field`, `Check.messagesAt_each_index`, ...: the rules.
* `Check.messagesAt_noRepeats_index`: what is said of a repeated key.
* `Check.Elementary`: checks that find one problem at most, and that in the value itself.
* `Job.messagesAt_check`: what is said in a field of a job is said by the check of that field.
-/

namespace Pipeline

/-- A text that begins with another one begins with the same character. -/
theorem Text.head?_append {s t : String} {c : Char} (h : s.toList.head? = some c) :
    (s ++ t).toList.head? = some c := by
  rw [String.toList_append, List.head?_append, h, Option.some_or]

namespace Violations

variable {found found' : Violations} {p : FieldPath} {message : String}

theorem mem_messagesAt_iff : message ∈ found.messagesAt p ↔ ⟨p, message⟩ ∈ found := by
  rw [messagesAt, List.mem_map]
  constructor
  · rintro ⟨v, hv, rfl⟩
    obtain ⟨hv, hp⟩ := List.mem_filter.mp hv
    exact of_decide_eq_true hp ▸ hv
  · exact fun h => ⟨_, List.mem_filter.mpr ⟨h, by simp⟩, rfl⟩

theorem messagesAt_append : messagesAt (found ++ found') p = found.messagesAt p ++ found'.messagesAt p := by
  rw [messagesAt, List.filter_append, List.map_append, messagesAt, messagesAt]

theorem messagesAt_flatMap {α : Type} (as : List α) (found : α → Violations) (p : FieldPath) :
    messagesAt (as.flatMap found) p = as.flatMap fun a => (found a).messagesAt p := by
  rw [messagesAt, List.filter_flatMap, List.map_flatMap]
  rfl

/-- What is found below a path is at a longer one. -/
theorem messagesAt_map_below (q : FieldPath) (found : Violations) (p : FieldPath) :
    messagesAt (found.map (Violation.below q)) (q ++ p) = found.messagesAt p := by
  rw [messagesAt, List.filter_map, List.map_map, messagesAt]
  congr 1
  refine List.filter_congr fun v _ => ?_
  simp [Violation.below]

theorem messagesAt_map_below_of_not_prefix {q : FieldPath} (h : ¬ q <+: p) (found : Violations) :
    messagesAt (found.map (Violation.below q)) p = [] := by
  rw [messagesAt, List.map_eq_nil_iff, List.filter_eq_nil_iff]
  rintro v hv hp
  obtain ⟨w, -, rfl⟩ := List.mem_map.mp hv
  exact h ⟨w.path, of_decide_eq_true hp⟩

end Violations

/-- Entries that add nothing may be left out before. -/
theorem flatMap_ite {α β : Type} (p : α → Prop) [DecidablePred p] (f : α → List β) (as : List α) :
    (as.flatMap fun a => if p a then f a else []) = (as.filter fun a => p a).flatMap f := by
  induction as with
  | nil => rfl
  | cons a as ih =>
    rw [List.flatMap_cons, ih]
    by_cases h : p a
    · rw [if_pos h, List.filter_cons_of_pos (by simpa using h), List.flatMap_cons]
    · rw [if_neg h, List.filter_cons_of_neg (by simpa using h), List.nil_append]

/-- A position is that of one entry. -/
theorem filter_zipIdx {α : Type} (as : List α) (k i : Nat) :
    ((as.zipIdx k).filter fun e => e.2 = k + i) = (as[i]?.map fun a => (a, k + i)).toList := by
  induction as generalizing k i with
  | nil => rfl
  | cons a as ih =>
    rw [List.zipIdx_cons]
    cases i with
    | zero =>
      have hbehind : ((as.zipIdx (k + 1)).filter fun e => e.2 = k + 0) = [] := by
        refine List.filter_eq_nil_iff.mpr fun e he => ?_
        have hle := List.le_snd_of_mem_zipIdx he
        simp only [decide_eq_true_eq]
        omega
      rw [List.filter_cons_of_pos (by simp), hbehind]
      rfl
    | succ i =>
      have hk : k + (i + 1) = k + 1 + i := by omega
      rw [List.filter_cons_of_neg (by simp), hk, ih, List.getElem?_cons_succ]

namespace Check

/-- What a check says of the value at a path. -/
def messagesAt (c : Check) (p : FieldPath) : List String := c.report.messagesAt p

variable {c d : Check} {p : FieldPath} {step : PathSegment} {name key message : String} {i k : Nat}

theorem mem_messagesAt_iff : message ∈ c.messagesAt p ↔ ⟨p, message⟩ ∈ c.report :=
  Violations.mem_messagesAt_iff

/-! ## Elementary checks -/

@[simp] theorem head?_emptyMessage : emptyMessage.toList.head? = some 'm' := rfl

@[simp] theorem messagesAt_pass : pass.messagesAt p = [] := rfl

@[simp] theorem messagesAt_fail_nil : (fail message).messagesAt [] = [message] := rfl

@[simp] theorem messagesAt_fail_cons : (fail message).messagesAt (step :: p) = [] := rfl

/-- A check that finds one problem at most, and that in the value itself. -/
def Elementary (c : Check) : Prop :=
  c.report = [] ∨ ∃ message, c.report = [⟨FieldPath.root, message⟩]

theorem elementary_pass : pass.Elementary := .inl rfl

theorem elementary_fail (message : String) : (fail message).Elementary := .inr ⟨message, rfl⟩

theorem elementary_require (ok : Bool) (message : String) : (require ok message).Elementary := by
  unfold require
  split
  · exact elementary_pass
  · exact elementary_fail message

theorem elementary_notEmpty (s : String) : (notEmpty s).Elementary := elementary_require _ _

theorem Elementary.messagesAt_cons (h : c.Elementary) : c.messagesAt (step :: p) = [] := by
  rcases h with h | ⟨message, h⟩ <;> simp [messagesAt, Violations.messagesAt, h, FieldPath.root]

theorem Elementary.mem_messagesAt_iff (h : c.Elementary) :
    message ∈ c.messagesAt p ↔ p = [] ∧ message ∈ c.messagesAt [] := by
  cases p with
  | nil => simp
  | cons step p => simp [h.messagesAt_cons]

@[simp] theorem messagesAt_require_cons {ok : Bool} :
    (require ok message).messagesAt (step :: p) = [] :=
  (elementary_require ok message).messagesAt_cons

@[simp] theorem messagesAt_notEmpty_cons {s : String} : (notEmpty s).messagesAt (step :: p) = [] :=
  (elementary_notEmpty s).messagesAt_cons

theorem eq_of_mem_messagesAt_require {ok : Bool} {said : String}
    (h : said ∈ (require ok message).messagesAt p) : said = message := by
  cases ok with
  | true => cases h
  | false =>
    cases p with
    | nil => exact List.mem_singleton.mp h
    | cons step p => cases h

theorem eq_of_mem_messagesAt_notEmpty {s said : String} (h : said ∈ (notEmpty s).messagesAt p) :
    said = emptyMessage :=
  eq_of_mem_messagesAt_require h

/-! ## Combined checks -/

theorem messagesAt_andThen [Relocatable d] :
    (andThen c d).messagesAt p = c.messagesAt p ++ d.messagesAt p := by
  rw [messagesAt, report_andThen, Violations.messagesAt_append, messagesAt, messagesAt]

@[simp] theorem messagesAt_all_nil : (all []).messagesAt p = [] := rfl

@[simp] theorem messagesAt_all_cons {cs : List Check} [Relocatable (all cs)] :
    (all (c :: cs)).messagesAt p = c.messagesAt p ++ (all cs).messagesAt p :=
  messagesAt_andThen

@[simp] theorem messagesAt_optional {α : Type} {c : α → Check} {o : Option α} :
    (optional c o).messagesAt p = o.elim [] fun a => (c a).messagesAt p := by
  cases o <;> rfl

section

variable [Relocatable c]

@[simp] theorem messagesAt_field_nil : (field name c).messagesAt [] = [] := by
  rw [messagesAt, report_field]
  exact Violations.messagesAt_map_below_of_not_prefix (by simp [FieldPath.field, FieldPath.root]) _

@[simp] theorem messagesAt_field_index : (field name c).messagesAt (.index i :: p) = [] := by
  rw [messagesAt, report_field]
  exact Violations.messagesAt_map_below_of_not_prefix (by simp [FieldPath.field, FieldPath.root]) _

@[simp] theorem messagesAt_field_field :
    (field name c).messagesAt (.field key :: p) = if name = key then c.messagesAt p else [] := by
  rw [messagesAt, report_field]
  split
  · subst key
    exact Violations.messagesAt_map_below (FieldPath.root.field name) _ p
  · rename_i h
    exact Violations.messagesAt_map_below_of_not_prefix
      (by simpa [FieldPath.field, FieldPath.root] using h) _

@[simp] theorem messagesAt_index_nil : (index i c).messagesAt [] = [] := by
  rw [messagesAt, report_index]
  exact Violations.messagesAt_map_below_of_not_prefix (by simp [FieldPath.index, FieldPath.root]) _

@[simp] theorem messagesAt_index_field : (index i c).messagesAt (.field name :: p) = [] := by
  rw [messagesAt, report_index]
  exact Violations.messagesAt_map_below_of_not_prefix (by simp [FieldPath.index, FieldPath.root]) _

@[simp] theorem messagesAt_index_index :
    (index i c).messagesAt (.index k :: p) = if i = k then c.messagesAt p else [] := by
  rw [messagesAt, report_index]
  split
  · subst k
    exact Violations.messagesAt_map_below (FieldPath.root.index i) _ p
  · rename_i h
    exact Violations.messagesAt_map_below_of_not_prefix
      (by simpa [FieldPath.index, FieldPath.root] using h) _

end

theorem mem_messagesAt_field_iff [Relocatable c] :
    message ∈ (field name c).messagesAt p ↔ ∃ q, p = .field name :: q ∧ message ∈ c.messagesAt q := by
  match p with
  | [] | .index i :: p => simp
  | .field key :: p =>
    rw [messagesAt_field_field]
    split <;> simp [*, Ne.symm]

/-! ## Lists -/

section

variable {α : Type} {c : α → Check} [∀ a, Relocatable (c a)] {as : List α}

theorem messagesAt_each :
    (each c as).messagesAt p = as.zipIdx.flatMap fun e => (index e.2 (c e.1)).messagesAt p := by
  rw [messagesAt, report_each, Violations.messagesAt_flatMap]
  rfl

@[simp] theorem messagesAt_each_nil : (each c as).messagesAt [] = [] := by
  simp [messagesAt_each]

@[simp] theorem messagesAt_each_field : (each c as).messagesAt (.field name :: p) = [] := by
  simp [messagesAt_each]

@[simp] theorem messagesAt_each_index :
    (each c as).messagesAt (.index i :: p) = as[i]?.elim [] fun a => (c a).messagesAt p := by
  have hentry := filter_zipIdx as 0 i
  rw [Nat.zero_add] at hentry
  simp only [messagesAt_each, messagesAt_index_index]
  rw [flatMap_ite, hentry]
  cases as[i]? <;> simp

theorem mem_messagesAt_each_iff :
    message ∈ (each c as).messagesAt p ↔
      ∃ i a q, p = .index i :: q ∧ as[i]? = some a ∧ message ∈ (c a).messagesAt q := by
  match p with
  | [] | .field key :: p => simp
  | .index i :: p =>
    rw [messagesAt_each_index]
    cases h : as[i]? <;> simp [h]

theorem messagesAt_all_map :
    (all (as.map c)).messagesAt p = as.flatMap fun a => (c a).messagesAt p := by
  rw [messagesAt, report_all_map, Violations.messagesAt_flatMap]
  rfl

end

section

variable {label : String} {place : Check → Check} {keys : List String}
  [∀ message, Relocatable (place (fail message))]

theorem messagesAt_noRepeats :
    (noRepeats label place keys).messagesAt p = (duplicates keys).flatMap fun e =>
      (index e.1 (place (fail (label ++ ": " ++ e.2)))).messagesAt p :=
  messagesAt_all_map

@[simp] theorem messagesAt_noRepeats_nil : (noRepeats label place keys).messagesAt [] = [] := by
  simp [messagesAt_noRepeats]

@[simp] theorem messagesAt_noRepeats_field :
    (noRepeats label place keys).messagesAt (.field name :: p) = [] := by
  simp [messagesAt_noRepeats]

/-- A repeated key is reported in the entry that repeats it. -/
@[simp] theorem messagesAt_noRepeats_index :
    (noRepeats label place keys).messagesAt (.index i :: p) = (repeatedAt? keys i).elim [] fun key =>
      (place (fail (label ++ ": " ++ key))).messagesAt p := by
  simp only [messagesAt_noRepeats, messagesAt_index_index]
  rw [flatMap_ite, filter_duplicates]
  cases repeatedAt? keys i <;> simp

end

end Check

/-! ## Jobs and specifications -/

open Check

/-- What is said of a text that cannot be read. -/
theorem Interpolation.Error.head?_message_mem (e : Error) :
    e.message.toList.head? ∈ [some 'U', some 'E', some 'D'] := by
  cases e with
  | unterminated position =>
    have h : (unterminated position).message.toList.head? = some 'U' := Text.head?_append rfl
    simp [h]
  | emptyName position =>
    have h : (emptyName position).message.toList.head? = some 'E' := Text.head?_append rfl
    simp [h]
  | danglingEscape => decide

namespace Job

theorem elementary_checkInterpolation (s : String) : (checkInterpolation s).Elementary := by
  unfold checkInterpolation
  split
  · exact elementary_pass
  · exact elementary_fail _

theorem elementary_checkRequirement (s : String) : (checkRequirement s).Elementary := by
  unfold checkRequirement
  split
  · exact elementary_fail _
  · split
    · exact elementary_checkInterpolation s
    · exact elementary_require _ _

theorem messagesAt_check (j : Job) {f : JobField} (hf : f ∈ JobField.checked) (p : FieldPath) :
    j.check.messagesAt (.field f.key :: p) = (f.check j).messagesAt p := by
  have honly : ∀ f ∈ JobField.checked, (JobField.checked.filter fun g => g.key = f.key) = [f] := by
    decide
  have hfields : j.check.messagesAt (.field f.key :: p) = JobField.checked.flatMap fun g =>
      (field g.key (g.check j)).messagesAt (.field f.key :: p) := by
    rw [messagesAt, report_check, Violations.messagesAt_flatMap]
    rfl
  simp only [hfields, messagesAt_field_field]
  rw [flatMap_ite, honly f hf, List.flatMap_singleton]

end Job

/-- What is said of a job is said by the job, by the check for repeated names, or by that of its
references. -/
theorem Spec.messagesAt_check {s : Spec} {n : Nat} {j : Job} (h : s.jobs[n]? = some j)
    (p : FieldPath) :
    s.check.messagesAt (.field "jobs" :: .index n :: p) =
      j.check.messagesAt p ++
      (noRepeats "Duplicate job" (field "name") s.jobNames).messagesAt (.index n :: p) ++
      (checkReferences s.jobNames j).messagesAt p := by
  simp [check, h]

end Pipeline
