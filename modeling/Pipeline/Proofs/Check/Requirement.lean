import Pipeline.Proofs.Check.MessagesAt
import Pipeline.Proofs.Interpolation.Grammar
import Pipeline.Proofs.Quantity
import Pipeline.Proofs.WellFormed.Job

/-!
# What a job may require

What is said at a field of a job is said by the check of that field (`Job.messagesAt_check`). Of a
requirement, that is one thing at most, and nothing if the requirement is a quantity or refers
to variables. A quantity may be written in the digits of any script, so a requirement can be one
without being one in the digits `0` to `9`: `Job.messagesAt_requirement`.
-/

namespace Pipeline

open Check

namespace Check

variable {c : Check}

theorem Elementary.length_messagesAt (h : c.Elementary) :
    (Violations.messagesAt c.report FieldPath.root).length ≤ 1 := by
  rcases h with h | ⟨message, h⟩
  · simp [Violations.messagesAt, h]
  · simp [Violations.messagesAt, h]

theorem Elementary.messagesAt_eq_nil_iff (h : c.Elementary) :
    Violations.messagesAt c.report FieldPath.root = [] ↔ c.Passes := by
  rcases h with h | ⟨message, h⟩
  · simp [Violations.messagesAt, Passes, h]
  · simp [Violations.messagesAt, Passes, h]

end Check

namespace Job

/-! ## Requirements -/

/-- A text that tells how much is needed: it can be read and refers to variables, or it is a
quantity in digits of the given kind. -/
def RequirementForm (digit : Char → Bool) (s : String) : Prop :=
  Text.NonBlank s ∧ ∃ segments, Interpolation.parse s = .ok segments ∧
    ((∃ name, .variable name ∈ segments) ∨
      (∀ name, .variable name ∉ segments) ∧ Quantity.Form digit (Text.trim s).toList)

theorem isRequirement_iff {s : String} :
    IsRequirement s ↔ RequirementForm Text.isDigitChar s := by
  simp only [IsRequirement, RequirementForm, ne_eq, Interpolation.names_eq_nil_iff,
    Quantity.isQuantity_iff, not_forall, not_not]

/-- A requirement in digits of any script is one in the digits `0` to `9` if it refers to variables
or has no other digits. -/
theorem requirementForm_decimal_iff {s : String} :
    RequirementForm Text.isDecimalDigit s ↔ RequirementForm Text.isDigitChar s ∧
      (Interpolation.hasVariables s = false →
        ∀ c ∈ (Text.trim s).toList, Text.isDigitChar c = true → Text.isDecimalDigit c = true) := by
  simp only [RequirementForm, Interpolation.hasVariables_eq_false_iff, Quantity.form_decimal_iff]
  constructor
  · rintro ⟨hblank, segments, hparse, hvar | ⟨hnone, hform, hdigits⟩⟩
    · refine ⟨⟨hblank, segments, hparse, .inl hvar⟩, ?_⟩
      rintro ⟨others, hothers, hnone⟩
      obtain rfl : segments = others := Except.ok.inj (hparse.symm.trans hothers)
      obtain ⟨name, hname⟩ := hvar
      exact absurd hname (hnone name)
    · exact ⟨⟨hblank, segments, hparse, .inr ⟨hnone, hform⟩⟩, fun _ => hdigits⟩
  · rintro ⟨⟨hblank, segments, hparse, hvar | ⟨hnone, hform⟩⟩, hdigits⟩
    · exact ⟨hblank, segments, hparse, .inl hvar⟩
    · exact ⟨hblank, segments, hparse, .inr ⟨hnone, hform, hdigits ⟨segments, hparse, hnone⟩⟩⟩

/-- The texts that tell what a job needs, each with the name of its field. -/
def requirements (j : Job) : List (String × String) :=
  [("cpu_requirement", j.cpuRequirement), ("memory_requirement", j.memoryRequirement)]

theorem messagesAt_requirements (j : Job) {field s : String} (h : (field, s) ∈ j.requirements) :
    j.check.report.messagesAt (FieldPath.root.field field) =
      Violations.messagesAt (checkRequirement s).report FieldPath.root := by
  simp only [requirements, List.mem_cons, Prod.mk.injEq, List.not_mem_nil, or_false] at h
  rcases h with ⟨rfl, rfl⟩ | ⟨rfl, rfl⟩
  · exact j.messagesAt_check (f := .cpuRequirement) (by decide) FieldPath.root
  · exact j.messagesAt_check (f := .memoryRequirement) (by decide) FieldPath.root

/-- At most one thing is said of a requirement. Nothing is said just if it refers to variables, and
all its references can be read, or is a quantity, in digits of any script. So nothing is said just
of those that are quantities in the digits `0` to `9`, unless one is taken that has other digits. -/
theorem messagesAt_requirement (j : Job) {field s : String} (h : (field, s) ∈ j.requirements) :
    (j.check.report.messagesAt (FieldPath.root.field field)).length ≤ 1 ∧
    (j.check.report.messagesAt (FieldPath.root.field field) = [] ↔
      RequirementForm Text.isDigitChar s) ∧
    ((j.check.report.messagesAt (FieldPath.root.field field) = [] ↔
        RequirementForm Text.isDecimalDigit s) ↔
      (j.check.report.messagesAt (FieldPath.root.field field) = [] →
        Interpolation.hasVariables s = false → ∀ c ∈ (Text.trim s).toList,
          Text.isDigitChar c = true → Text.isDecimalDigit c = true)) := by
  have hone := elementary_checkRequirement s
  have hnone : j.check.report.messagesAt (FieldPath.root.field field) = [] ↔
      RequirementForm Text.isDigitChar s := by
    rw [messagesAt_requirements j h, hone.messagesAt_eq_nil_iff, passes_checkRequirement,
      isRequirement_iff]
  refine ⟨?_, hnone, ?_⟩
  · rw [messagesAt_requirements j h]
    exact hone.length_messagesAt
  · rw [hnone, requirementForm_decimal_iff]
    exact iff_self_and

/-- A job that needs as little as can be told in many ways. -/
def frugal : Job :=
  { ofCommands "j" "i" ["c"] with
    cpuRequirement := " +1.5e-3 ", memoryRequirement := "@param:memory@Mi" }

theorem messagesAt_requirement_frugal :
    ("cpu_requirement", " +1.5e-3 ") ∈ frugal.requirements ∧
    ("memory_requirement", "@param:memory@Mi") ∈ frugal.requirements ∧
    frugal.check.report.messagesAt (FieldPath.root.field "cpu_requirement") = [] ∧
    RequirementForm Text.isDecimalDigit " +1.5e-3 " ∧
    frugal.check.report.messagesAt (FieldPath.root.field "memory_requirement") = [] ∧
    RequirementForm Text.isDecimalDigit "@param:memory@Mi" := by
  have hcpu : ("cpu_requirement", " +1.5e-3 ") ∈ frugal.requirements := .head _
  have hmemory : ("memory_requirement", "@param:memory@Mi") ∈ frugal.requirements :=
    .tail _ (.head _)
  obtain ⟨-, -, hdigits⟩ := messagesAt_requirement frugal hcpu
  obtain ⟨-, -, hvariable⟩ := messagesAt_requirement frugal hmemory
  have hnone : frugal.check.report.messagesAt (FieldPath.root.field "cpu_requirement") = [] := by
    decide +kernel
  have hnone' : frugal.check.report.messagesAt (FieldPath.root.field "memory_requirement") = [] := by
    decide +kernel
  have hscript : (Text.trim " +1.5e-3 ").toList.all
      (fun c => !Text.isDigitChar c || Text.isDecimalDigit c) = true := by decide
  have hform := (hdigits.mpr fun _ _ c hc hd => by
    simpa [hd] using List.all_eq_true.mp hscript c hc).mp hnone
  have hrefers : Interpolation.hasVariables "@param:memory@Mi" = true := by decide +kernel
  have hform' := (hvariable.mpr fun _ hv => absurd (hrefers.symm.trans hv) (by decide)).mp hnone'
  exact ⟨hcpu, hmemory, hnone, hform, hnone', hform'⟩

/-- A job that needs one processor, in a digit of the Arabic script. -/
def arabic : Job :=
  { ofCommands "j" "i" ["c"] with cpuRequirement := "\u0661" }

/-- Nothing is said of a requirement in other digits. -/
theorem not_requirementForm_decimal_arabic :
    ("cpu_requirement", "\u0661") ∈ arabic.requirements ∧
    arabic.check.report.messagesAt (FieldPath.root.field "cpu_requirement") = [] ∧
    ¬ RequirementForm Text.isDecimalDigit "\u0661" := by
  refine ⟨.head _, by decide +kernel, fun h => ?_⟩
  obtain ⟨-, hdigits⟩ := requirementForm_decimal_iff.mp h
  have hdecimal := hdigits (by decide +kernel) '\u0661' (by decide) (by decide)
  exact absurd hdecimal (by decide)

end Job

end Pipeline
