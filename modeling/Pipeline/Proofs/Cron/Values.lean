import Mathlib.Data.List.Basic
import Mathlib.Order.Basic
import Pipeline.Cron.Schedule

/-!
# The values of a schedule that was read

* `Cron.Unit.mem_all`, `Cron.Unit.pairwise_all`: all values of a unit are those within its bounds,
  in ascending order.
* `Cron.Schedule.Regular`: the values of each field are some of all values, in the same order.
* `Cron.Schedule.Regular.of_ofText`: so they are in every schedule that an expression stands for.
-/

namespace Pipeline

namespace Cron

/-- A reader that goes on with what was read before fails unless both succeed. -/
theorem bind_eq_ok_iff {α β : Type} {x : Except Error α} {f : α → Except Error β} {b : β} :
    (x >>= f) = .ok b ↔ ∃ a, x = .ok a ∧ f a = .ok b := by
  cases x <;> simp [bind, Except.bind]

namespace Unit

variable {unit : Unit}

theorem mem_span {first last n : Nat} (h : first ≤ last) :
    n ∈ span first last ↔ first ≤ n ∧ n ≤ last := by
  simp only [span, List.mem_map, List.mem_range]
  constructor
  · rintro ⟨i, hi, rfl⟩
    omega
  · rintro ⟨hf, hl⟩
    exact ⟨n - first, by omega, by omega⟩

theorem pairwise_span {first last : Nat} : (span first last).Pairwise (· < ·) :=
  List.pairwise_map.mpr (List.pairwise_lt_range.imp fun h => Nat.add_lt_add_left h first)

theorem mem_all {n : Nat} : n ∈ unit.all ↔ unit.least ≤ n ∧ n ≤ unit.greatest :=
  mem_span (by cases unit <;> decide)

theorem pairwise_all : unit.all.Pairwise (· < ·) := pairwise_span

theorem sublist_of_values {items : List Item} {values : List Nat}
    (h : unit.values items = .ok values) : values.Sublist unit.all := by
  obtain ⟨sets, -, hs⟩ := bind_eq_ok_iff.mp h
  cases hs
  exact List.filter_sublist

theorem sublist_of_field {ts rest : List Token} {values : List Nat}
    (h : unit.field ts = .ok (values, rest)) : values.Sublist unit.all := by
  unfold field at h
  split at h
  · cases h
  · obtain ⟨vs, hv, he⟩ := bind_eq_ok_iff.mp h
    cases he
    exact sublist_of_values hv

end Unit

namespace Schedule

/-- The values of each field are some of all values of its unit, in the same order. -/
structure Regular (s : Schedule) : Prop where
  seconds : s.seconds.Sublist Unit.second.all
  minutes : s.minutes.Sublist Unit.minute.all
  hours : s.hours.Sublist Unit.hour.all
  daysOfMonth : s.daysOfMonth.Sublist Unit.dayOfMonth.all
  months : s.months.Sublist Unit.month.all
  daysOfWeek : s.daysOfWeek.Sublist Unit.dayOfWeek.all
  years : s.years.Sublist Unit.year.all

theorem sublist_of_yearsField {ts : List Token} {years : List Nat}
    (h : yearsField ts = .ok years) : years.Sublist Unit.year.all := by
  unfold yearsField at h
  split at h
  · rename_i hf
    cases h
    exact Unit.sublist_of_field hf
  · cases h
  · split at h
    · cases h
      exact .refl _
    · cases h

namespace Regular

variable {s : Schedule}

theorem of_ofFields {ts : List Token} (h : ofFields ts = .ok s) : s.Regular := by
  obtain ⟨⟨seconds, ts₁⟩, hs, h⟩ := bind_eq_ok_iff.mp h
  obtain ⟨⟨minutes, ts₂⟩, hm, h⟩ := bind_eq_ok_iff.mp h
  obtain ⟨⟨hours, ts₃⟩, hh, h⟩ := bind_eq_ok_iff.mp h
  obtain ⟨⟨daysOfMonth, ts₄⟩, hd, h⟩ := bind_eq_ok_iff.mp h
  obtain ⟨⟨months, ts₅⟩, hmo, h⟩ := bind_eq_ok_iff.mp h
  obtain ⟨⟨daysOfWeek, ts₆⟩, hw, h⟩ := bind_eq_ok_iff.mp h
  obtain ⟨years, hy, h⟩ := bind_eq_ok_iff.mp h
  cases h
  exact { seconds := Unit.sublist_of_field hs, minutes := Unit.sublist_of_field hm,
          hours := Unit.sublist_of_field hh, daysOfMonth := Unit.sublist_of_field hd,
          months := Unit.sublist_of_field hmo, daysOfWeek := Unit.sublist_of_field hw,
          years := sublist_of_yearsField hy }

theorem of_mem_shorthands {name : String} (h : (name, s) ∈ shorthands) : s.Regular := by
  simp only [shorthands, List.mem_cons, List.not_mem_nil, or_false, Prod.mk.injEq] at h
  obtain ⟨-, rfl⟩ | ⟨-, rfl⟩ | ⟨-, rfl⟩ | ⟨-, rfl⟩ | ⟨-, rfl⟩ := h
  all_goals
    constructor <;> first
      | exact .refl _
      | exact List.singleton_sublist.mpr (Unit.mem_all.mpr (by decide))

theorem of_shorthand? {ts : List Token} (h : shorthand? ts = some s) : s.Regular := by
  unfold shorthand? at h
  split at h
  · obtain ⟨-, hl⟩ := Option.ite_none_right_eq_some.mp h
    obtain ⟨_, _, hmem, -⟩ := List.lookup_eq_some_iff.mp hl
    exact of_mem_shorthands (hmem ▸ List.mem_append_right _ List.mem_cons_self)
  · cases h

/-- An expression stands for one of the schedules that have a name, or its fields are read. -/
theorem of_ofText {text : String} (h : ofText text = .ok s) : s.Regular := by
  unfold ofText ofTokens at h
  split at h
  · rename_i hs
    cases h
    exact of_shorthand? hs
  · exact of_ofFields h

end Regular

end Schedule

end Cron
end Pipeline
