import Pipeline.Spec

/-!
# Checks add at the end and report below their path

A check is handed the problems found so far and the path of the value. It could drop problems or
tell them apart by the path; no check of a specification does.

* `Check.Relocatable`: a check adds its report to the problems found so far, moved below the
  path. Every way of combining checks keeps this, and the checks of specifications and of all
  their parts have it.
* `Check.report_andThen`, `Check.report_field`, `Check.report_index`: the report of a combined
  check in terms of the reports of its parts.
-/

namespace Pipeline

/-- The problem of a value that stands at a path, told from the root. -/
def Violation.below (path : FieldPath) (v : Violation) : Violation :=
  { v with path := path ++ v.path }

namespace Violation

theorem below_root : below FieldPath.root = id := by
  funext v
  rfl

theorem below_field (path : FieldPath) (name : String) :
    below (path.field name) = below path ∘ below (FieldPath.root.field name) := by
  funext v
  simp [below, FieldPath.field, FieldPath.root]

theorem below_index (path : FieldPath) (i : Nat) :
    below (path.index i) = below path ∘ below (FieldPath.root.index i) := by
  funext v
  simp [below, FieldPath.index, FieldPath.root]

end Violation

namespace Check

/-- A check that adds its report to what was found before, with every path continued from the
path of the value. -/
class Relocatable (c : Check) : Prop where
  eq_append : ∀ path found, c path found = found ++ c.report.map (Violation.below path)

/-- It is enough that the problems found at a path do not depend on those found before. -/
theorem Relocatable.of_append {c : Check} (problems : Violations)
    (h : ∀ path found, c path found = found ++ problems.map (Violation.below path)) :
    Relocatable c where
  eq_append path found := by
    have hr : c.report = problems := by
      rw [report, h, Violation.below_root, List.map_id, List.nil_append]
    rw [h, hr]

/-! ## Elementary checks -/

instance : Relocatable pass := .of_append [] fun _ _ => by simp [pass]

instance (message : String) : Relocatable (fail message) :=
  .of_append [⟨FieldPath.root, message⟩] fun path found => by
    simp [fail, Violation.below, FieldPath.root]

instance (ok : Bool) (message : String) : Relocatable (require ok message) := by
  unfold require
  split <;> infer_instance

instance (s : String) : Relocatable (notEmpty s) := by
  unfold notEmpty
  infer_instance

@[simp] theorem report_fail (message : String) :
    (fail message).report = [⟨FieldPath.root, message⟩] := rfl

/-! ## Combined checks -/

theorem report_andThen {c d : Check} [hd : Relocatable d] :
    (andThen c d).report = c.report ++ d.report := by
  rw [report, andThen, hd.eq_append, Violation.below_root, List.map_id]
  rfl

section

variable {c d : Check} [hc : Relocatable c] [hd : Relocatable d]

theorem report_field (name : String) :
    (field name c).report = c.report.map (Violation.below (FieldPath.root.field name)) := by
  rw [report, field, hc.eq_append, List.nil_append]

theorem report_index (i : Nat) :
    (index i c).report = c.report.map (Violation.below (FieldPath.root.index i)) := by
  rw [report, index, hc.eq_append, List.nil_append]

instance (name : String) : Relocatable (field name c) where
  eq_append path found := by
    rw [report_field, List.map_map, ← Violation.below_field, field, hc.eq_append]

instance (i : Nat) : Relocatable (index i c) where
  eq_append path found := by
    rw [report_index, List.map_map, ← Violation.below_index, index, hc.eq_append]

instance : Relocatable (andThen c d) where
  eq_append path found := by
    rw [report_andThen, List.map_append, ← List.append_assoc, andThen, hc.eq_append,
      hd.eq_append]

instance {p : Prop} [Decidable p] : Relocatable (if p then c else d) := by
  split
  · exact hc
  · exact hd

instance : Relocatable (id c) := hc

instance : Relocatable (all []) := inferInstanceAs (Relocatable pass)

instance {cs : List Check} [Relocatable (all cs)] : Relocatable (all (c :: cs)) :=
  inferInstanceAs (Relocatable (andThen c (all cs)))

end

theorem relocatable_all {cs : List Check} (h : ∀ c ∈ cs, Relocatable c) : Relocatable (all cs) := by
  induction cs with
  | nil => infer_instance
  | cons c cs ih =>
    have := h c List.mem_cons_self
    have := ih fun d hd => h d (List.mem_cons_of_mem c hd)
    infer_instance

section

variable {α : Type} {c : α → Check} [hc : ∀ a, Relocatable (c a)]

instance (o : Option α) : Relocatable (optional c o) := by
  cases o with
  | none => exact inferInstanceAs (Relocatable pass)
  | some a => exact hc a

instance (i : Nat) (as : List α) : Relocatable (eachFrom c i as) := by
  induction as generalizing i with
  | nil => exact inferInstanceAs (Relocatable pass)
  | cons a as ih =>
    have := ih (i + 1)
    exact inferInstanceAs (Relocatable (andThen (index i (c a)) (eachFrom c (i + 1) as)))

instance (as : List α) : Relocatable (each c as) := inferInstanceAs (Relocatable (eachFrom c 0 as))

instance (as : List α) : Relocatable (all (as.map c)) := by
  refine relocatable_all fun d hd => ?_
  obtain ⟨a, -, rfl⟩ := List.mem_map.mp hd
  exact hc a

end

/-- The report on a list: those on its entries, each at its position. -/
theorem report_eachFrom {α : Type} {c : α → Check} [∀ a, Relocatable (c a)] (i : Nat) (as : List α) :
    (eachFrom c i as).report = (as.zipIdx i).flatMap fun e => (index e.2 (c e.1)).report := by
  induction as generalizing i with
  | nil => rfl
  | cons a as ih => rw [eachFrom, report_andThen, ih, List.zipIdx_cons, List.flatMap_cons]

theorem report_each {α : Type} {c : α → Check} [∀ a, Relocatable (c a)] (as : List α) :
    (each c as).report = as.zipIdx.flatMap fun e => (index e.2 (c e.1)).report :=
  report_eachFrom 0 as

/-- The reports of the checks of several values, one behind the other. -/
theorem report_all_map {α : Type} {c : α → Check} [∀ a, Relocatable (c a)] (as : List α) :
    (all (as.map c)).report = as.flatMap fun a => (c a).report := by
  induction as with
  | nil => rfl
  | cons a as ih => rw [List.map_cons, all, report_andThen, ih, List.flatMap_cons]

instance (label : String) (place : Check → Check) (keys : List String)
    [hp : ∀ message, Relocatable (place (fail message))] :
    Relocatable (noRepeats label place keys) := by
  refine relocatable_all fun c hc => ?_
  obtain ⟨_, -, rfl⟩ := List.mem_map.mp hc
  infer_instance

end Check

/-! ## The checks of specifications -/

open Check

instance (c : Cache) : Relocatable c.check := by unfold Cache.check; infer_instance

instance (v : EnvVar) : Relocatable v.check := by unfold EnvVar.check; infer_instance

instance (s : Service) : Relocatable s.check := by unfold Service.check; infer_instance

namespace ParamSpec

instance (choices : List String) : Relocatable (checkChoices choices) := by
  unfold checkChoices
  infer_instance

instance (kind : ParamKind) : Relocatable (checkKind kind) := by
  unfold checkKind
  split <;> infer_instance

instance (kind : ParamKind) (value : String) : Relocatable (checkDefault kind value) := by
  unfold checkDefault
  split <;> infer_instance

instance (p : ParamSpec) : Relocatable p.check := by unfold check; infer_instance

end ParamSpec

instance (p : ParamSupply) : Relocatable p.check := by unfold ParamSupply.check; infer_instance

instance (supplies : List ParamSupply) : Relocatable (ParamSupply.checkAll supplies) := by
  unfold ParamSupply.checkAll
  infer_instance

instance (d : JobDependency) : Relocatable d.check := by unfold JobDependency.check; infer_instance

instance (b : BuildSelector) : Relocatable b.check := by
  cases b <;> unfold BuildSelector.check <;> infer_instance

instance (d : ProjectDependency) : Relocatable d.check := by
  unfold ProjectDependency.check
  infer_instance

instance (r : Report) : Relocatable r.check := by unfold Report.check; infer_instance

instance (k : ActionKind) : Relocatable k.check := by
  cases k <;> unfold ActionKind.check <;> infer_instance

instance (a : Action) : Relocatable a.check := by unfold Action.check; infer_instance

instance (p : RetryPolicy) : Relocatable p.check := by unfold RetryPolicy.check; infer_instance

instance (pattern : String) : Relocatable (Trigger.checkPattern pattern) := by
  unfold Trigger.checkPattern
  split <;> infer_instance

instance (patterns : List String) : Relocatable (Trigger.checkPatterns patterns) := by
  unfold Trigger.checkPatterns
  infer_instance

instance (expression : String) : Relocatable (Trigger.checkCron expression) := by
  unfold Trigger.checkCron
  split
  · infer_instance
  · split <;> infer_instance

instance (t : Trigger) : Relocatable t.check := by
  cases t <;> unfold Trigger.check <;> infer_instance

namespace Job

instance (s : String) : Relocatable (checkInterpolation s) := by
  unfold checkInterpolation
  split <;> infer_instance

instance (s : String) : Relocatable (checkRequirement s) := by
  unfold checkRequirement
  split
  · infer_instance
  · split <;> infer_instance

instance (c : Credential) : Relocatable (checkCredential c) := by
  unfold checkCredential
  infer_instance

variable (j : Job)

instance : Relocatable j.checkExecution := by unfold checkExecution; infer_instance

instance : Relocatable j.checkCaches := by unfold checkCaches; infer_instance

instance : Relocatable j.checkDependencies := by unfold checkDependencies; infer_instance

instance : Relocatable j.checkParamSpecs := by unfold checkParamSpecs; infer_instance

instance : Relocatable j.checkSource := by
  unfold checkSource
  split <;> infer_instance

instance : Relocatable j.checkResources := by unfold checkResources; infer_instance

instance : Relocatable j.check := by unfold check; infer_instance

end Job

namespace Spec

instance (known : List String) (owner target : String) :
    Relocatable (checkReference known owner target) := by
  unfold checkReference
  split
  · infer_instance
  · split <;> infer_instance

instance (known : List String) (j : Job) : Relocatable (checkReferences known j) := by
  unfold checkReferences
  infer_instance

instance (s : Spec) : Relocatable s.check := by unfold check; infer_instance

end Spec

end Pipeline
