import Pipeline.Json
import Pipeline.Proofs.FieldPath

/-!
# Places of a JSON value

* `Json.follow?`: the value at the end of a path, if every step of the path can be taken.
* `Json.HasPlace`: a path that can be followed to its end, through fields whose names can be
  written.
* `Json.Addressable`: no list has more entries than a number of 64 bits can count. Then paths to
  its places are read back from their written form (`HasPlace.ofText_text`).
-/

namespace Pipeline

namespace Json

/-- The value that a path leads to. -/
def follow? : FieldPath → Json → Option Json
  | [], v => some v
  | .field name :: p, v => (v.field? name).bind (follow? p)
  | .index i :: p, v => (v.item? i).bind (follow? p)

/-- A path leads to some part of a value, through fields whose names can be written. -/
structure HasPlace (v : Json) (p : FieldPath) : Prop where
  exists_value : ∃ w, v.follow? p = some w
  names : ∀ name, .field name ∈ p → FieldPath.IsName name

theorem hasPlace_root (v : Json) : v.HasPlace FieldPath.root where
  exists_value := ⟨v, rfl⟩
  names _ h := absurd h List.not_mem_nil

namespace HasPlace

variable {v w : Json} {p : FieldPath}

theorem field {name : String} (hn : FieldPath.IsName name) (hw : v.field? name = some w)
    (h : w.HasPlace p) : v.HasPlace (.field name :: p) := by
  obtain ⟨u, hu⟩ := h.exists_value
  refine ⟨⟨u, ?_⟩, fun k hk => ?_⟩
  · rw [follow?, hw, Option.bind_some, hu]
  · rcases List.mem_cons.mp hk with hk | hk
    · exact (PathSegment.field.inj hk).symm ▸ hn
    · exact h.names k hk

theorem index {i : Nat} (hw : v.item? i = some w) (h : w.HasPlace p) :
    v.HasPlace (.index i :: p) := by
  obtain ⟨u, hu⟩ := h.exists_value
  refine ⟨⟨u, ?_⟩, fun k hk => ?_⟩
  · rw [follow?, hw, Option.bind_some, hu]
  · rcases List.mem_cons.mp hk with hk | hk
    · exact PathSegment.noConfusion hk
    · exact h.names k hk

end HasPlace

/-! ## Positions -/

/-- Whether no list of a value has more entries than a number of 64 bits can count. -/
def isAddressable : Json → Bool
  | .arr items => decide (items.length ≤ Text.wordLimit) && itemsAddressable items
  | .obj fields => fieldsAddressable fields
  | .null | .bool _ | .int _ | .real _ | .str _ => true
where
  itemsAddressable : List Json → Bool
    | [] => true
    | v :: vs => v.isAddressable && itemsAddressable vs
  fieldsAddressable : List (String × Json) → Bool
    | [] => true
    | (_, v) :: rest => v.isAddressable && fieldsAddressable rest

/-- A value none of whose lists has more entries than a number of 64 bits can count. -/
def Addressable (v : Json) : Prop := v.isAddressable = true

instance (v : Json) : Decidable v.Addressable := inferInstanceAs (Decidable (_ = true))

namespace Addressable

variable {v w : Json}

theorem of_mem_items {items : List Json} (h : isAddressable.itemsAddressable items = true)
    (hv : v ∈ items) : v.Addressable := by
  induction items with
  | nil => exact absurd hv List.not_mem_nil
  | cons first rest ih =>
    rw [isAddressable.itemsAddressable, Bool.and_eq_true] at h
    rcases List.mem_cons.mp hv with rfl | hv
    · exact h.1
    · exact ih h.2 hv

theorem of_mem_fields {fields : List (String × Json)}
    (h : isAddressable.fieldsAddressable fields = true) {name : String}
    (hv : (name, v) ∈ fields) : v.Addressable := by
  induction fields with
  | nil => exact absurd hv List.not_mem_nil
  | cons first rest ih =>
    rw [isAddressable.fieldsAddressable, Bool.and_eq_true] at h
    rcases List.mem_cons.mp hv with rfl | hv
    · exact h.1
    · exact ih h.2 hv

theorem of_field? (h : v.Addressable) {name : String} (hw : v.field? name = some w) :
    w.Addressable := by
  cases v with
  | obj fields =>
    rw [Addressable, isAddressable] at h
    obtain ⟨l, r, hf, -⟩ := List.lookup_eq_some_iff.mp hw
    exact of_mem_fields h (hf ▸ List.mem_append_right l List.mem_cons_self)
  | _ => cases hw

theorem of_item? (h : v.Addressable) {i : Nat} (hw : v.item? i = some w) :
    i < Text.wordLimit ∧ w.Addressable := by
  cases v with
  | arr items =>
    rw [Addressable, isAddressable, Bool.and_eq_true, decide_eq_true_eq] at h
    obtain ⟨hi, -⟩ := List.getElem?_eq_some_iff.mp hw
    exact ⟨Nat.lt_of_lt_of_le hi h.1, of_mem_items h.2 (List.mem_of_getElem? hw)⟩
  | _ => cases hw

/-- The positions on a path that can be followed are numbers of 64 bits. -/
theorem index_lt {p : FieldPath} (h : v.Addressable) (hp : v.follow? p = some w) {i : Nat}
    (hi : .index i ∈ p) : i < Text.wordLimit := by
  induction p generalizing v with
  | nil => exact absurd hi List.not_mem_nil
  | cons step p ih =>
    cases step with
    | field name =>
      obtain ⟨u, hu, hrest⟩ := Option.bind_eq_some_iff.mp hp
      rcases List.mem_cons.mp hi with hi | hi
      · exact PathSegment.noConfusion hi
      · exact ih (h.of_field? hu) hrest hi
    | index k =>
      obtain ⟨u, hu, hrest⟩ := Option.bind_eq_some_iff.mp hp
      obtain ⟨hk, hadd⟩ := h.of_item? hu
      rcases List.mem_cons.mp hi with hi | hi
      · exact (PathSegment.index.inj hi).symm ▸ hk
      · exact ih hadd hrest hi

end Addressable

/-- Paths to the places of a value are read back from their written form. -/
theorem HasPlace.ofText_text {v : Json} {p : FieldPath} (h : v.HasPlace p)
    (ha : v.Addressable) : FieldPath.ofText p.text = p := by
  obtain ⟨w, hw⟩ := h.exists_value
  exact FieldPath.ofText_text ⟨h.names, fun i hi => ha.index_lt hw hi⟩

end Json

end Pipeline
