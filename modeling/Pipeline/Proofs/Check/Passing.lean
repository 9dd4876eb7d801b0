import Pipeline.Proofs.Check.Relocation
import Pipeline.Proofs.Duplicates
import Pipeline.Proofs.Text.Trim

/-!
# When a check finds nothing

`Check.Passes`: a check reports nothing. For each way of combining checks, what passing says of
the parts: a check of all entries of a list passes if it passes each entry
(`Check.passes_each`), a check for repeated keys passes if no key is repeated
(`Check.passes_noRepeats`), and so on. The rules are for `simp`, which takes a check of a
specification apart down to conditions on its texts and numbers.
-/

namespace Pipeline

namespace Text

/-- A text of which something is left when the blank characters at its ends are cut off. -/
def NonBlank (s : String) : Prop := trim s ≠ ""

theorem trim_eq_empty_iff {s : String} : trim s = "" ↔ isBlank s = true := by
  rw [isBlank, List.all_eq_true, trim, String.ofList_eq_empty_iff, trimChars_eq_nil_iff]

theorem isBlank_eq_true_iff {s : String} : isBlank s = true ↔ ¬ NonBlank s := by
  rw [NonBlank, Ne, trim_eq_empty_iff, not_not]

theorem isBlank_eq_false_iff {s : String} : isBlank s = false ↔ NonBlank s := by
  rw [NonBlank, Ne, trim_eq_empty_iff, Bool.not_eq_true]

end Text

namespace Check

/-- The check finds nothing. -/
def Passes (c : Check) : Prop := c.report = []

/-! ## Elementary checks -/

@[simp] theorem passes_pass : pass.Passes := rfl

@[simp] theorem not_passes_fail {message : String} : ¬ (fail message).Passes := by
  simp [Passes]

@[simp] theorem passes_require {ok : Bool} {message : String} :
    (require ok message).Passes ↔ ok = true := by
  cases ok <;> simp [require]

@[simp] theorem passes_notEmpty {s : String} : (notEmpty s).Passes ↔ Text.NonBlank s := by
  rw [notEmpty, passes_require, Bool.not_eq_true', Text.isBlank_eq_false_iff]

/-! ## Combined checks -/

theorem passes_ite {p : Prop} [Decidable p] {c d : Check} :
    (if p then c else d).Passes ↔ (p → c.Passes) ∧ (¬ p → d.Passes) := by
  by_cases h : p <;> simp [h]

/-- A check that makes an exception of blank texts. -/
theorem passes_ite_isBlank {s : String} {c d : Check} :
    (if Text.isBlank s then c else d).Passes ↔
      (¬ Text.NonBlank s → c.Passes) ∧ (Text.NonBlank s → d.Passes) := by
  rw [passes_ite, Text.isBlank_eq_true_iff, not_not]

section

variable {c : Check} [Relocatable c]

@[simp] theorem passes_field {name : String} : (field name c).Passes ↔ c.Passes := by
  rw [Passes, report_field, List.map_eq_nil_iff, Passes]

@[simp] theorem passes_index {i : Nat} : (index i c).Passes ↔ c.Passes := by
  rw [Passes, report_index, List.map_eq_nil_iff, Passes]

end

theorem passes_andThen {c d : Check} [Relocatable d] :
    (andThen c d).Passes ↔ c.Passes ∧ d.Passes := by
  rw [Passes, report_andThen, List.append_eq_nil_iff, Passes, Passes]

@[simp] theorem passes_all_nil : (all []).Passes := rfl

@[simp] theorem passes_all_cons {c : Check} {cs : List Check} [Relocatable (all cs)] :
    (all (c :: cs)).Passes ↔ c.Passes ∧ (all cs).Passes :=
  passes_andThen

theorem passes_all {cs : List Check} (h : ∀ c ∈ cs, Relocatable c) :
    (all cs).Passes ↔ ∀ c ∈ cs, c.Passes := by
  induction cs with
  | nil => simp
  | cons c cs ih =>
    have := h c List.mem_cons_self
    have hcs := fun d hd => h d (List.mem_cons_of_mem c hd)
    have := relocatable_all hcs
    rw [passes_all_cons, ih hcs, List.forall_mem_cons]

section

variable {α : Type} {c : α → Check}

@[simp] theorem passes_optional {o : Option α} :
    (optional c o).Passes ↔ ∀ a, o = some a → (c a).Passes := by
  cases o <;> simp [optional]

variable [∀ a, Relocatable (c a)]

theorem passes_eachFrom {i : Nat} {as : List α} :
    (eachFrom c i as).Passes ↔ ∀ a ∈ as, (c a).Passes := by
  induction as generalizing i with
  | nil => simp [eachFrom]
  | cons a as ih => rw [eachFrom, passes_andThen, passes_index, ih, List.forall_mem_cons]

@[simp] theorem passes_each {as : List α} : (each c as).Passes ↔ ∀ a ∈ as, (c a).Passes :=
  passes_eachFrom

end

/-- Where a key is reported does not matter, as long as it is reported. -/
theorem passes_noRepeats {label : String} {place : Check → Check} {keys : List String}
    [∀ message, Relocatable (place (fail message))]
    (hp : ∀ message, ¬ (place (fail message)).Passes) :
    (noRepeats label place keys).Passes ↔ keys.Nodup := by
  rw [noRepeats, passes_all, ← duplicates_eq_nil_iff, List.eq_nil_iff_forall_not_mem]
  · constructor
    · intro h entry he
      have := h _ (List.mem_map_of_mem he)
      exact hp _ (passes_index.mp this)
    · intro h c hc
      obtain ⟨entry, he, -⟩ := List.mem_map.mp hc
      exact absurd he (h entry)
  · intro c hc
    obtain ⟨entry, -, rfl⟩ := List.mem_map.mp hc
    infer_instance

@[simp] theorem passes_noRepeats_field {label name : String} {keys : List String} :
    (noRepeats label (field name) keys).Passes ↔ keys.Nodup :=
  passes_noRepeats fun _ => by simp

@[simp] theorem passes_noRepeats_id {label : String} {keys : List String} :
    (noRepeats label id keys).Passes ↔ keys.Nodup :=
  passes_noRepeats fun _ => not_passes_fail

end Check

end Pipeline
