import Mathlib.Data.List.Perm.Basic
import Pipeline.Proofs.Check.Relocation
import Pipeline.Proofs.Duplicates

/-!
# What is said, wherever it is said

`Check.messages`: the messages of a report without their paths. They do not change when a value
stands elsewhere, so those of a combined check are put together from those of its parts.
-/

namespace Pipeline

namespace Check

/-- The messages of a report, in order. -/
def messages (c : Check) : List String := c.report.map Violation.message

theorem map_message_map_below (path : FieldPath) (found : Violations) :
    (found.map (Violation.below path)).map Violation.message = found.map Violation.message := by
  rw [List.map_map]
  rfl

@[simp] theorem messages_fail (message : String) : (fail message).messages = [message] := rfl

section

variable {c : Check} [Relocatable c]

@[simp] theorem messages_field (name : String) : (field name c).messages = c.messages := by
  rw [messages, report_field, map_message_map_below, messages]

@[simp] theorem messages_index (i : Nat) : (index i c).messages = c.messages := by
  rw [messages, report_index, map_message_map_below, messages]

end

theorem messages_andThen {c d : Check} [Relocatable d] :
    (andThen c d).messages = c.messages ++ d.messages := by
  rw [messages, report_andThen, List.map_append, messages, messages]

@[simp] theorem messages_all_nil : (all []).messages = [] := rfl

@[simp] theorem messages_all_cons {c : Check} {cs : List Check} [Relocatable (all cs)] :
    (all (c :: cs)).messages = c.messages ++ (all cs).messages :=
  messages_andThen

section

variable {α : Type} {c : α → Check} [∀ a, Relocatable (c a)]

/-- The positions of the entries do not matter to what is said of them. -/
@[simp] theorem messages_each (as : List α) :
    (each c as).messages = as.flatMap fun a => (c a).messages := by
  have hentry (e : α × Nat) : (index e.2 (c e.1)).report.map Violation.message = (c e.1).messages :=
    messages_index e.2
  rw [messages, report_each, List.map_flatMap]
  simp only [hentry]
  rw [← List.flatMap_map Prod.fst fun a => (c a).messages, List.zipIdx_map_fst]

theorem messages_all_map (as : List α) :
    (all (as.map c)).messages = as.flatMap fun a => (c a).messages := by
  rw [messages, report_all_map, List.map_flatMap]
  rfl

end

/-- Where a repeated key is reported does not matter to what is said of it. -/
theorem messages_noRepeats {lead : Check → Check} [∀ message, Relocatable (lead (fail message))]
    (h : ∀ message, (lead (fail message)).messages = [message]) (label : String)
    (keys : List String) :
    (noRepeats label lead keys).messages = (repeated keys).map fun key => label ++ ": " ++ key := by
  have hnoRepeats : noRepeats label lead keys =
      all ((duplicates keys).map fun e => index e.1 (lead (fail (label ++ ": " ++ e.2)))) :=
    rfl
  rw [hnoRepeats, messages_all_map, repeated, List.map_map, List.map_eq_flatMap]
  simp only [messages_index, h, Function.comp_apply]

@[simp] theorem messages_noRepeats_field (label name : String) (keys : List String) :
    (noRepeats label (field name) keys).messages =
      (repeated keys).map fun key => label ++ ": " ++ key :=
  messages_noRepeats (fun _ => by simp) label keys

@[simp] theorem messages_noRepeats_id (label : String) (keys : List String) :
    (noRepeats label id keys).messages = (repeated keys).map fun key => label ++ ": " ++ key :=
  messages_noRepeats (fun _ => rfl) label keys

end Check

end Pipeline
