import Pipeline.Proofs.Check.Messages
import Pipeline.Proofs.Check.MessagesAt
import Pipeline.Proofs.Check.Passing

/-!
# How messages begin

`Check.Avoids`: nothing that a check says begins with a character. The rules are for `simp`, which
takes a check apart down to the texts of its messages. What is said of a job by itself does not begin
with the character with which what is said of a reference to no job begins (`Job.avoids_check`).
-/

namespace Pipeline

namespace Check

variable {c : Check} {cs : List Check} {name label message : String} {keys : List String}
  {initial : Char}

/-- Nothing that the check says begins with a character. -/
def Avoids (initial : Char) (c : Check) : Prop :=
  ∀ said ∈ c.messages, said.toList.head? ≠ some initial

theorem Avoids.head?_ne {p : FieldPath} {said : String} (h : c.Avoids initial)
    (hs : said ∈ c.messagesAt p) : said.toList.head? ≠ some initial :=
  h said (List.mem_map_of_mem (mem_messagesAt_iff.mp hs))

@[simp] theorem avoids_pass : pass.Avoids initial := nofun

@[simp] theorem avoids_fail :
    (fail message).Avoids initial ↔ message.toList.head? ≠ some initial := by
  simp [Avoids]

@[simp] theorem avoids_require {ok : Bool} :
    (require ok message).Avoids initial ↔ ok = true ∨ message.toList.head? ≠ some initial := by
  cases ok <;> simp [require]

@[simp] theorem avoids_notEmpty {s : String} :
    (notEmpty s).Avoids initial ↔ Text.NonBlank s ∨ emptyMessage.toList.head? ≠ some initial := by
  rw [notEmpty, avoids_require, Bool.not_eq_true', Text.isBlank_eq_false_iff]

@[simp] theorem avoids_all_nil : (all []).Avoids initial := nofun

@[simp] theorem avoids_all_cons [Relocatable (all cs)] :
    (all (c :: cs)).Avoids initial ↔ c.Avoids initial ∧ (all cs).Avoids initial := by
  simp only [Avoids, messages_all_cons, List.forall_mem_append]

@[simp] theorem avoids_field [Relocatable c] : (field name c).Avoids initial ↔ c.Avoids initial := by
  rw [Avoids, messages_field, Avoids]

@[simp] theorem avoids_optional {α : Type} {c : α → Check} {o : Option α} :
    (optional c o).Avoids initial ↔ ∀ a, o = some a → (c a).Avoids initial := by
  cases o <;> simp [optional]

@[simp] theorem avoids_each {α : Type} {c : α → Check} [∀ a, Relocatable (c a)] {as : List α} :
    (each c as).Avoids initial ↔ ∀ a ∈ as, (c a).Avoids initial := by
  simp only [Avoids, messages_each, List.mem_flatMap]
  exact ⟨fun h a ha said hs => h said ⟨a, ha, hs⟩, fun h said ⟨a, ha, hs⟩ => h a ha said hs⟩

@[simp] theorem avoids_noRepeats_field :
    (noRepeats label (Check.field name) keys).Avoids initial ↔
      ∀ key ∈ repeated keys, (label ++ ": " ++ key).toList.head? ≠ some initial := by
  rw [Avoids, messages_noRepeats_field, List.forall_mem_map]

@[simp] theorem avoids_noRepeats_id :
    (noRepeats label id keys).Avoids initial ↔
      ∀ key ∈ repeated keys, (label ++ ": " ++ key).toList.head? ≠ some initial := by
  rw [Avoids, messages_noRepeats_id, List.forall_mem_map]

end Check

open Check

/-! ## What is said of a job -/

theorem Service.avoids_check (s : Service) : s.check.Avoids 'J' := by simp [check, EnvVar.check]

namespace ParamSpec

theorem avoids_checkKind (kind : ParamKind) : (checkKind kind).Avoids 'J' := by
  cases kind <;> simp [checkKind, checkChoices]

theorem avoids_checkDefault (kind : ParamKind) (value : String) :
    (checkDefault kind value).Avoids 'J' := by
  cases kind <;> simp [checkDefault]

theorem avoids_check (p : ParamSpec) : p.check.Avoids 'J' := by
  simp [check, avoids_checkKind, avoids_checkDefault]

end ParamSpec

theorem ParamSupply.avoids_checkAll (supplies : List ParamSupply) :
    (checkAll supplies).Avoids 'J' := by
  simp [checkAll, check]

theorem JobDependency.avoids_check (d : JobDependency) : d.check.Avoids 'J' := by
  simp [check, ParamSupply.avoids_checkAll]

theorem ProjectDependency.avoids_check (d : ProjectDependency) : d.check.Avoids 'J' := by
  have hbuild : d.build.check.Avoids 'J' := by cases d.build <;> simp [BuildSelector.check]
  simp [check, hbuild]

theorem Action.avoids_check (a : Action) : a.check.Avoids 'J' := by
  obtain ⟨condition, kind⟩ := a
  cases kind <;> simp [check, ActionKind.check, ParamSupply.avoids_checkAll]

namespace Trigger

theorem avoids_checkPatterns (patterns : List String) : (checkPatterns patterns).Avoids 'J' := by
  refine avoids_each.mpr fun pattern _ => ?_
  unfold checkPattern
  split <;> simp

theorem avoids_checkCron (expression : String) : (checkCron expression).Avoids 'J' := by
  unfold checkCron
  split
  · simp
  · split <;> simp

theorem avoids_check (t : Trigger) : t.check.Avoids 'J' := by
  cases t <;> simp [check, avoids_checkPatterns, avoids_checkCron]

end Trigger

namespace Job

theorem avoids_checkInterpolation (s : String) : (checkInterpolation s).Avoids 'J' := by
  unfold checkInterpolation
  split
  · exact avoids_pass
  · rename_i e _
    refine avoids_fail.mpr fun h => ?_
    exact absurd (h ▸ e.head?_message_mem) (by decide)

theorem avoids_checkRequirement (s : String) : (checkRequirement s).Avoids 'J' := by
  unfold checkRequirement
  split
  · simp
  · split
    · exact avoids_checkInterpolation s
    · simp

theorem avoids_checkField (j : Job) (f : JobField) : (f.check j).Avoids 'J' := by
  cases f with
  | cloneDepth | submoduleCredentials =>
    simp only [JobField.check]
    split <;> simp [checkCredential]
  | _ =>
    simp [JobField.check, Service.avoids_check, Report.check, Cache.check,
      JobDependency.avoids_check, ParamSpec.avoids_check, ProjectDependency.avoids_check,
      Trigger.avoids_check, Action.avoids_check, avoids_checkInterpolation, avoids_checkRequirement]

/-- What is said of a job by itself begins otherwise than what is said of a reference to no job. -/
theorem avoids_check (j : Job) : j.check.Avoids 'J' := by
  intro said hs
  rw [messages, report_check, List.map_flatMap] at hs
  obtain ⟨f, -, hs⟩ := List.mem_flatMap.mp hs
  exact avoids_field.mpr (j.avoids_checkField f) said hs

end Job

end Pipeline
