import Pipeline.Proofs.Cron.Search

/-!
# The next times of a schedule

* `Cron.Schedule.Fits`: each unit of a second is among the values of its field. The date is that of
  the calendar as it is counted on from 1970, not the one that the search computes.
* `Cron.Schedule.Regular.fits_natCast_iff`, `Cron.Schedule.Regular.not_fits_of_neg`: a schedule that
  was read fires at the seconds that fit, none of which lies before 1970.
* `Cron.FirstTimes`: the first few numbers with a property, in ascending order.
* `Cron.Schedule.Regular.firstTimes_times`: these are listed of the seconds that fit.
-/

namespace Pipeline

namespace Cron

namespace Schedule

/-! ## Seconds that fit -/

/-- The units of a second, counted from the start of 1970, are among the values of the fields. -/
structure Fits (s : Schedule) (time : Int) : Prop where
  second : ∃ n ∈ s.seconds, time % 60 = n
  minute : ∃ n ∈ s.minutes, time / 60 % 60 = n
  hour : ∃ n ∈ s.hours, time / 3600 % 24 = n
  date : ∃ d, Calendar.IsDateOf (time / 86400) d ∧ d.day ∈ s.daysOfMonth ∧ d.month ∈ s.months ∧
    ∃ n ∈ s.years, d.year = n
  weekday : Calendar.weekday (time / 86400) ∈ s.daysOfWeek

variable {s : Schedule}

theorem firesOn_iff {day : Nat} :
    s.firesOn day = true ↔
      (Calendar.dateOfDay day).day ∈ s.daysOfMonth ∧ (Calendar.dateOfDay day).month ∈ s.months ∧
      (∃ n ∈ s.years, (Calendar.dateOfDay day).year = n) ∧
      Calendar.weekday day ∈ s.daysOfWeek := by
  have hyear : 0 ≤ (Calendar.dateOfDay day).year :=
    Int.le_trans (by decide) (Calendar.year_le_of_le (Int.natCast_nonneg day))
  have hmem : (Calendar.dateOfDay day).year.toNat ∈ s.years ↔
      ∃ n ∈ s.years, (Calendar.dateOfDay day).year = n := by
    constructor
    · exact fun h => ⟨_, h, (Int.toNat_of_nonneg hyear).symm⟩
    · rintro ⟨n, hn, he⟩
      rwa [he, Int.toNat_natCast]
  simp only [firesOn, Bool.and_eq_true, List.contains_iff_mem, hmem]
  tauto

theorem firesAtTime_iff {time : Nat} :
    s.firesAtTime time = true ↔
      time / 3600 ∈ s.hours ∧ time / 60 % 60 ∈ s.minutes ∧ time % 60 ∈ s.seconds := by
  simp only [firesAtTime, Bool.and_eq_true, List.contains_iff_mem, and_assoc]

/-- From 1970 on a schedule fires at the seconds that fit. -/
theorem fits_natCast_iff {n : Nat} : s.Fits n ↔ s.firesAt n = true := by
  have hmem {l : List Nat} {m : Nat} : (∃ k ∈ l, (m : Int) = k) ↔ m ∈ l := by simp
  have hsecond : (n : Int) % 60 = (n % 86400 % 60 : Nat) := by omega
  have hminute : (n : Int) / 60 % 60 = (n % 86400 / 60 % 60 : Nat) := by omega
  have hhour : (n : Int) / 3600 % 24 = (n % 86400 / 3600 : Nat) := by omega
  have hday : (n : Int) / 86400 = (n / 86400 : Nat) := by omega
  rw [firesAt, Bool.and_eq_true, Calendar.daySeconds, firesOn_iff, firesAtTime_iff]
  constructor
  · rintro ⟨hs, hm, hh, ⟨d, hd, hdate⟩, hw⟩
    rw [hsecond, hmem] at hs
    rw [hminute, hmem] at hm
    rw [hhour, hmem] at hh
    rw [hday] at hd hw
    obtain rfl := Calendar.isDateOf_iff.mp hd
    exact ⟨⟨hdate.1, hdate.2.1, hdate.2.2, hw⟩, hh, hm, hs⟩
  · rintro ⟨⟨hd, hmo, hy, hw⟩, hh, hm, hs⟩
    refine ⟨?_, ?_, ?_, ?_, ?_⟩
    · rwa [hsecond, hmem]
    · rwa [hminute, hmem]
    · rwa [hhour, hmem]
    · rw [hday]
      exact ⟨_, Calendar.isDateOf_dateOfDay _, hd, hmo, hy⟩
    · rwa [hday]

namespace Regular

/-- No field names a year before 1970. -/
theorem not_fits_of_neg (h : s.Regular) {time : Int} (ht : time < 0) : ¬ s.Fits time := by
  intro hf
  obtain ⟨d, hd, -, -, n, hn, hy⟩ := hf.date
  have hlt : d.year < 1970 := Calendar.isDateOf_iff.mp hd ▸ Calendar.year_lt_of_neg (by omega)
  have hle : 1970 ≤ n := (Unit.mem_all.mp (h.years.subset hn)).1
  omega

/-- No field names a year after 2100. -/
theorem exists_year_le (h : s.Regular) {time : Int} (ht : s.Fits time) :
    ∃ d, Calendar.IsDateOf (time / 86400) d ∧ d.year ≤ 2100 := by
  obtain ⟨d, hd, -, -, n, hn, hy⟩ := ht.date
  have hle : n ≤ 2100 := (Unit.mem_all.mp (h.years.subset hn)).2
  exact ⟨d, hd, by omega⟩

theorem exists_natCast_eq (h : s.Regular) {time : Int} (ht : s.Fits time) :
    ∃ n : Nat, time = n ∧ s.firesAt n = true := by
  obtain ⟨n, rfl⟩ := Int.eq_ofNat_of_zero_le (Int.not_lt.mp fun hneg => h.not_fits_of_neg hneg ht)
  exact ⟨n, rfl, fits_natCast_iff.mp ht⟩

end Regular

end Schedule

/-! ## First numbers -/

/-- The first numbers for which `p` holds, in ascending order: `count` of them, or all if there are
fewer. -/
structure FirstTimes (p : Int → Prop) (count : Nat) (times : List Nat) : Prop where
  ascending : times.Pairwise (· < ·)
  sound : ∀ n ∈ times, p n
  length_le : times.length ≤ count
  complete : ∀ time, p time →
    (∃ n ∈ times, time = n) ∨ times.length = count ∧ ∀ n ∈ times, (n : Int) < time

namespace FirstTimes

variable {p q : Int → Prop} {count first : Nat} {times : List Nat}

theorem zero : FirstTimes p 0 [] where
  ascending := .nil
  sound _ h := absurd h List.not_mem_nil
  length_le := Nat.le_refl 0
  complete _ _ := .inr ⟨rfl, fun _ h => absurd h List.not_mem_nil⟩

theorem none (h : ∀ time, ¬ p time) : FirstTimes p count [] where
  ascending := .nil
  sound _ h := absurd h List.not_mem_nil
  length_le := Nat.zero_le count
  complete time hp := absurd hp (h time)

/-- The least number stands before those that are greater. -/
theorem cons (h : IsLeast {time | p time} (first : Int))
    (hr : FirstTimes (fun time => first < time ∧ p time) count times) :
    FirstTimes p (count + 1) (first :: times) where
  ascending := List.pairwise_cons.mpr
    ⟨fun n hn => Int.ofNat_lt.mp (hr.sound n hn).1, hr.ascending⟩
  sound := List.forall_mem_cons.mpr ⟨h.1, fun n hn => (hr.sound n hn).2⟩
  length_le := Nat.succ_le_succ hr.length_le
  complete time hp := by
    rcases Int.lt_or_eq_of_le (h.2 hp) with hlt | rfl
    · rcases hr.complete time ⟨hlt, hp⟩ with ⟨n, hn, he⟩ | ⟨hlen, hall⟩
      · exact .inl ⟨n, List.mem_cons_of_mem _ hn, he⟩
      · exact .inr ⟨congrArg (· + 1) hlen, List.forall_mem_cons.mpr ⟨hlt, hall⟩⟩
    · exact .inl ⟨first, List.mem_cons_self, rfl⟩

theorem congr (h : ∀ time, p time ↔ q time) (hp : FirstTimes p count times) :
    FirstTimes q count times := by
  obtain rfl : p = q := funext fun time => propext (h time)
  exact hp

/-- The first one of the first numbers is the least one. -/
theorem isLeast (h : FirstTimes p count (first :: times)) :
    IsLeast {time | p time} (first : Int) := by
  refine ⟨h.sound first List.mem_cons_self, fun time hp => ?_⟩
  rcases h.complete time hp with ⟨n, hn, rfl⟩ | ⟨-, hall⟩
  · rcases List.mem_cons.mp hn with rfl | hn
    · exact Int.le_refl _
    · exact Int.ofNat_le.mpr (List.rel_of_pairwise_cons h.ascending hn).le
  · exact (hall first List.mem_cons_self).le

/-- No number is listed only if there is none. -/
theorem not_of_nil (h : FirstTimes p (count + 1) []) (time : Int) : ¬ p time := by
  intro hp
  rcases h.complete time hp with ⟨n, hn, -⟩ | ⟨hlen, -⟩
  · cases hn
  · cases hlen

end FirstTimes

namespace Schedule

variable {s : Schedule}

/-! ## The times that are listed -/

/-- What is found from a second on is the first one that fits. -/
theorem Regular.isLeast_fits (h : s.Regular) {t found : Nat} (hn : s.next? t = some found) :
    IsLeast {time : Int | (t : Int) ≤ time ∧ s.Fits time} found := by
  obtain ⟨⟨hle, hf⟩, hleast⟩ := h.isLeast_of_next? hn
  refine ⟨⟨Int.ofNat_le.mpr hle, fits_natCast_iff.mpr hf⟩, ?_⟩
  rintro time ⟨ht, hfits⟩
  obtain ⟨n, rfl, hn⟩ := h.exists_natCast_eq hfits
  exact Int.ofNat_le.mpr (hleast ⟨Int.ofNat_le.mp ht, hn⟩)

/-- The seconds from `t` on that fit are listed without a gap. -/
theorem Regular.firstTimes_times (h : s.Regular) (count t : Nat) :
    FirstTimes (fun time => (t : Int) ≤ time ∧ s.Fits time) count (s.times count t) := by
  induction count generalizing t with
  | zero => exact .zero
  | succ count ih =>
    rw [times]
    cases hn : s.next? t with
    | none =>
      refine .none ?_
      rintro time ⟨ht, hf⟩
      obtain ⟨n, rfl, hn'⟩ := h.exists_natCast_eq hf
      exact Bool.false_ne_true
        ((h.firesAt_eq_false_of_next? hn (Int.ofNat_le.mp ht)).symm.trans hn')
    | some found =>
      have hleast := h.isLeast_fits hn
      have hfound : (t : Int) ≤ found := hleast.1.1
      refine .cons hleast (.congr (fun time => ?_) (ih (found + 1)))
      constructor
      · rintro ⟨hle, hf⟩
        exact ⟨by omega, by omega, hf⟩
      · rintro ⟨hlt, -, hf⟩
        exact ⟨by omega, hf⟩

end Schedule

end Cron

end Pipeline
