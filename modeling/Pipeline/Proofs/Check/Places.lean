import Pipeline.Proofs.Check.Relocation
import Pipeline.Proofs.Duplicates
import Pipeline.Proofs.Json.Place

/-!
# Checks that report at places of the written form

`Check.ReportsIn c v`: every problem that the check `c` reports stands at a place of the JSON
value `v`. A check of a field does so if the check of its value reports in what `v` has under the
name (`ReportsIn.field`); a check of the entries of a list, and one for repeated keys among them,
if that is so of each entry (`ReportsIn.each`, `ReportsIn.noRepeats`).
-/

namespace Pipeline

namespace Check

/-- Every problem that the check reports stands at a place of the value. -/
def ReportsIn (c : Check) (v : Json) : Prop := ∀ x ∈ c.report, v.HasPlace x.path

variable {v w : Json}

/-! ## Elementary checks -/

theorem reportsIn_pass : pass.ReportsIn v := fun _ h => absurd h List.not_mem_nil

theorem reportsIn_fail {message : String} : (fail message).ReportsIn v := by
  intro x hx
  rw [report_fail, List.mem_singleton] at hx
  exact hx ▸ Json.hasPlace_root v

theorem reportsIn_require {ok : Bool} {message : String} : (require ok message).ReportsIn v := by
  unfold require
  split
  · exact reportsIn_pass
  · exact reportsIn_fail

theorem reportsIn_notEmpty {s : String} : (notEmpty s).ReportsIn v := reportsIn_require

/-! ## Combined checks -/

theorem reportsIn_andThen {c d : Check} [Relocatable d] :
    (andThen c d).ReportsIn v ↔ c.ReportsIn v ∧ d.ReportsIn v := by
  rw [ReportsIn, report_andThen, List.forall_mem_append]
  rfl

@[simp] theorem reportsIn_all_nil : (all []).ReportsIn v := reportsIn_pass

@[simp] theorem reportsIn_all_cons {c : Check} {cs : List Check} [Relocatable (all cs)] :
    (all (c :: cs)).ReportsIn v ↔ c.ReportsIn v ∧ (all cs).ReportsIn v :=
  reportsIn_andThen

namespace ReportsIn

section

variable {c : Check} [Relocatable c]

theorem field {name : String} (hn : FieldPath.IsName name) (hw : v.field? name = some w)
    (h : c.ReportsIn w) : (Check.field name c).ReportsIn v := by
  intro x hx
  rw [report_field] at hx
  obtain ⟨y, hy, rfl⟩ := List.mem_map.mp hx
  exact (h y hy).field hn hw

theorem index {i : Nat} (hw : v.item? i = some w) (h : c.ReportsIn w) :
    (Check.index i c).ReportsIn v := by
  intro x hx
  rw [report_index] at hx
  obtain ⟨y, hy, rfl⟩ := List.mem_map.mp hx
  exact (h y hy).index hw

end

theorem all {cs : List Check} (hr : ∀ c ∈ cs, Relocatable c) (h : ∀ c ∈ cs, c.ReportsIn v) :
    (Check.all cs).ReportsIn v := by
  induction cs with
  | nil => exact reportsIn_all_nil
  | cons c cs ih =>
    obtain ⟨hc, hcs⟩ := List.forall_mem_cons.mp h
    obtain ⟨-, hrs⟩ := List.forall_mem_cons.mp hr
    have := relocatable_all hrs
    exact reportsIn_all_cons.mpr ⟨hc, ih hrs hcs⟩

variable {α : Type} {c : α → Check} {encode : α → Json} {as : List α}

theorem optional {o : Option α} (h : ∀ a, (c a).ReportsIn v) :
    (Check.optional c o).ReportsIn v := by
  cases o with
  | none => exact reportsIn_pass
  | some a => exact h a

/-- The entries of a list are checked where they stand, from whichever position on. -/
theorem eachFrom [∀ a, Relocatable (c a)] (h : ∀ a ∈ as, (c a).ReportsIn (encode a))
    (before : List Json) :
    (Check.eachFrom c before.length as).ReportsIn (.arr (before ++ as.map encode)) := by
  induction as generalizing before with
  | nil => exact reportsIn_pass
  | cons a as ih =>
    obtain ⟨ha, has⟩ := List.forall_mem_cons.mp h
    refine reportsIn_andThen.mpr ⟨ReportsIn.index (w := encode a) ?_ ha, ?_⟩
    · simp [Json.item?]
    · simpa using ih has (before ++ [encode a])

theorem each [∀ a, Relocatable (c a)] (h : ∀ a ∈ as, (c a).ReportsIn (encode a)) :
    (Check.each c as).ReportsIn (.arr (as.map encode)) :=
  eachFrom h []

/-- A repeated key is reported in the entry that repeats it. -/
theorem noRepeats {label : String} {place : Check → Check} {key : α → String}
    [∀ message, Relocatable (place (fail message))]
    (h : ∀ a ∈ as, ∀ message, (place (fail message)).ReportsIn (encode a)) :
    (Check.noRepeats label place (as.map key)).ReportsIn (.arr (as.map encode)) := by
  refine ReportsIn.all (fun c hc => ?_) (fun c hc => ?_)
  · obtain ⟨entry, -, rfl⟩ := List.mem_map.mp hc
    infer_instance
  · obtain ⟨⟨i, k⟩, he, rfl⟩ := List.mem_map.mp hc
    have hk := getElem?_of_mem_duplicates he
    rw [List.getElem?_map, Option.map_eq_some_iff] at hk
    obtain ⟨a, ha, -⟩ := hk
    refine ReportsIn.index (w := encode a) ?_ (h a (List.mem_of_getElem? ha) _)
    simp [Json.item?, ha]

/-- Keys that are fields of the entries. -/
theorem noRepeats_field {label name : String} {key : α → String} (hn : FieldPath.IsName name)
    (hw : ∀ a, ∃ w, (encode a).field? name = some w) :
    (Check.noRepeats label (Check.field name) (as.map key)).ReportsIn (.arr (as.map encode)) :=
  ReportsIn.noRepeats fun a _ _ =>
    have ⟨_, hv⟩ := hw a
    ReportsIn.field hn hv reportsIn_fail

/-! A text is written as itself. -/

section

variable {texts : List String}

theorem each_texts {c : String → Check} [∀ s, Relocatable (c s)]
    (h : ∀ s, (c s).ReportsIn (.str s)) : (Check.each c texts).ReportsIn (.texts texts) :=
  each fun s _ => h s

theorem noRepeats_texts {label : String} :
    (Check.noRepeats label id texts).ReportsIn (.texts texts) := by
  have h := @ReportsIn.noRepeats String Json.str texts label id id inferInstance
    fun _ _ _ => reportsIn_fail
  rwa [List.map_id] at h

end

end ReportsIn

end Check

end Pipeline
