import Mathlib.Tactic.Common
import Mathlib.Tactic.IntervalCases
import Pipeline.Calendar

/-!
# The days of the calendar

* `Calendar.Date.next`: the date after a date.
* `Calendar.IsDateOf`: the dates of the days, counted on and back from the first day of 1970.
* `Calendar.dateOfDay_succ`: from one day to the next the date that is computed goes on to the next.
* `Calendar.isDateOf_iff`: what is computed for a day is its date.
* `Calendar.year_le_of_le`: no day lies in an earlier year than one before it.

Most of what follows is about years that begin in March and eras of four such centuries, in which a
date is computed. Their years, months and days all count from zero.
-/

namespace Pipeline

namespace Calendar

/-! ## Dates in order -/

/-- The date after a date: the next day of the month, or else the first of the next month. -/
def Date.next (d : Date) : Date :=
  if d.day < daysInMonth d.year d.month then { d with day := d.day + 1 }
  else if d.month < 12 then ⟨d.year, d.month + 1, 1⟩
  else ⟨d.year + 1, 1, 1⟩

/-- The dates of the days: day zero is the first of January 1970, and from one day to the next the
date goes on to the next one. -/
inductive IsDateOf : Int → Date → Prop
  | epoch : IsDateOf 0 ⟨1970, 1, 1⟩
  | next {day : Int} {d : Date} (h : IsDateOf day d) : IsDateOf (day + 1) d.next
  | back {day : Int} {d : Date} (hv : d.isValid = true) (h : IsDateOf (day + 1) d.next) :
    IsDateOf day d

theorem Date.isValid_iff {d : Date} :
    d.isValid = true ↔
      (1 ≤ d.month ∧ d.month ≤ 12) ∧ 1 ≤ d.day ∧ d.day ≤ daysInMonth d.year d.month := by
  simp [Date.isValid, and_assoc]

theorem Date.year_le_next (d : Date) : d.year ≤ d.next.year := by
  unfold Date.next
  split
  · exact Int.le_refl _
  · split
    · exact Int.le_refl _
    · exact Int.le_add_one (Int.le_refl _)

/-- Different dates are followed by different ones. -/
theorem Date.next_inj {d e : Date} (hd : d.isValid = true) (he : e.isValid = true)
    (h : d.next = e.next) : d = e := by
  obtain ⟨hdm, hd1, hdd⟩ := Date.isValid_iff.mp hd
  obtain ⟨hem, he1, hed⟩ := Date.isValid_iff.mp he
  obtain ⟨dy, dm, dd⟩ := d
  obtain ⟨ey, em, ed⟩ := e
  simp only [Date.next, Date.mk.injEq] at *
  -- A first of a month follows the last day of a month, any other day the day before it.
  by_cases hdl : dd < daysInMonth dy dm <;> by_cases hel : ed < daysInMonth ey em
  · simp only [hdl, hel, if_true, Date.mk.injEq] at h
    omega
  · simp only [hdl, hel, if_true, if_false] at h
    grind
  · simp only [hdl, hel, if_true, if_false] at h
    grind
  · simp only [hdl, hel, if_false] at h
    grind

/-! ## Years that begin in March -/

theorem isLeap_iff {year : Int} :
    isLeap year = true ↔ year % 4 = 0 ∧ (year % 100 ≠ 0 ∨ year % 400 = 0) := by
  simp [isLeap]

/-- How many days a year has that begins in March. Its last month is February of the next year. -/
def marchLength (year : Int) : Nat := if isLeap (year + 1) then 366 else 365

theorem marchLength_pos (year : Int) : 0 < marchLength year := by
  unfold marchLength
  split <;> decide

/-- Leap years come again after four centuries. -/
theorem marchLength_add_era (year era : Int) :
    marchLength (year + era * 400) = marchLength year := by
  have h : isLeap (year + era * 400 + 1) = isLeap (year + 1) := by
    rw [Bool.eq_iff_iff, isLeap_iff, isLeap_iff]
    omega
  rw [marchLength, h, marchLength]

/-- The number of days before a month of such a year. Months count from zero, a March. -/
def monthStart (month : Nat) : Nat := (153 * month + 2) / 5

/-- A day of a month of such a year. Both count from zero. -/
def marchDate (year : Int) (month day : Nat) : Date :=
  ⟨if month < 10 then year else year + 1, if month < 10 then month + 3 else month - 9, day + 1⟩

/-- How many days a month of such a year has. -/
def monthLength (year : Int) (month : Nat) : Nat :=
  daysInMonth (marchDate year month 0).year (marchDate year month 0).month

/-- Each month begins where the one before it ends, and the last one ends with the year. -/
theorem monthStart_add_monthLength (year : Int) {month : Nat} (h : month < 12) :
    monthStart month + monthLength year month =
      if month < 11 then monthStart (month + 1) else marchLength year := by
  by_cases hlast : month < 11
  · rw [if_pos hlast]
    interval_cases month <;> rfl
  · obtain rfl : month = 11 := by omega
    rw [if_neg hlast]
    show 337 + (if isLeap (year + 1) then 29 else 28) = if isLeap (year + 1) then 366 else 365
    split <;> rfl

theorem next_marchDate {year : Int} {month day : Nat} (h : month < 12) :
    (marchDate year month day).next =
      if day + 1 < monthLength year month then marchDate year month (day + 1)
      else if month < 11 then marchDate year (month + 1) 0
      else marchDate (year + 1) 0 0 := by
  unfold Date.next
  refine if_congr Iff.rfl rfl ?_
  interval_cases month <;> rfl

theorem isValid_marchDate {year : Int} {month day : Nat} (h : month < 12)
    (hd : day < monthLength year month) : (marchDate year month day).isValid = true := by
  refine Date.isValid_iff.mpr ⟨?_, Nat.le_add_left 1 day, hd⟩
  simp only [marchDate]
  split <;> omega

theorem monthLength_pos (year : Int) (month : Nat) : 0 < monthLength year month := by
  unfold monthLength daysInMonth
  repeat' split
  all_goals decide

/-- February may be shorter than there would be room for. -/
theorem monthStart_add_le (year : Int) {month : Nat} (h : month < 12) :
    monthStart month + monthLength year month ≤ monthStart (month + 1) := by
  rw [monthStart_add_monthLength year h]
  split
  · exact Nat.le_refl _
  · obtain rfl : month = 11 := by omega
    unfold marchLength
    split <;> decide

/-- The month of a day of a year that begins in March. -/
def monthOf (dayOfYear : Nat) : Nat :=
  let march := (5 * dayOfYear + 2) / 153
  if march < 10 then march + 3 else march - 9

/-- The date of a day of such a year. January and February belong to the year that began in March of
the year before. -/
def ofMarch (year : Int) (doy : Nat) : Date :=
  ⟨if monthOf doy ≤ 2 then year + 1 else year, monthOf doy,
    doy - (153 * ((5 * doy + 2) / 153) + 2) / 5 + 1⟩

theorem ofMarch_monthStart_add {year : Int} {month day : Nat} (h : month < 12)
    (hd : day < monthLength year month) :
    ofMarch year (monthStart month + day) = marchDate year month day := by
  have hend := monthStart_add_le year h
  have hmonth : (5 * (monthStart month + day) + 2) / 153 = month := by
    unfold monthStart at *
    omega
  simp only [ofMarch, monthOf, hmonth]
  rw [← monthStart, Nat.add_sub_cancel_left, marchDate, Date.mk.injEq]
  refine ⟨?_, rfl, rfl⟩
  split <;> split <;> omega

/-- Every day of such a year is a day of one of its months. -/
theorem exists_monthStart_add {year : Int} {doy : Nat} (h : doy < marchLength year) :
    ∃ month day, month < 12 ∧ day < monthLength year month ∧ doy = monthStart month + day := by
  induction doy with
  | zero => exact ⟨0, 0, by decide, monthLength_pos year 0, rfl⟩
  | succ doy ih =>
    obtain ⟨month, day, hm, hd, rfl⟩ := ih (by omega)
    have hend := monthStart_add_monthLength year hm
    by_cases hlt : day + 1 < monthLength year month
    · exact ⟨month, day + 1, hm, hlt, rfl⟩
    · split at hend
      · exact ⟨month + 1, 0, by omega, monthLength_pos year _, by omega⟩
      · omega

theorem monthStart_lt_marchLength {year : Int} {month : Nat} (h : month < 12) :
    monthStart month < marchLength year := by
  unfold monthStart marchLength
  split <;> omega

/-- The day after a day of such a year is the next day of the year, or the first of the next
year. -/
theorem next_ofMarch {year : Int} {doy : Nat} (h : doy < marchLength year) :
    (ofMarch year doy).next =
      if doy + 1 < marchLength year then ofMarch year (doy + 1) else ofMarch (year + 1) 0 := by
  obtain ⟨month, day, hm, hd, rfl⟩ := exists_monthStart_add h
  have hend := monthStart_add_monthLength year hm
  rw [ofMarch_monthStart_add hm hd, next_marchDate hm]
  by_cases hlast : month < 11
  · have hnext : monthStart (month + 1) < marchLength year :=
      monthStart_lt_marchLength (by omega)
    rw [if_pos hlast] at hend ⊢
    have hyear : monthStart month + day + 1 < marchLength year := by omega
    rw [if_pos hyear]
    split
    · rename_i hlt
      rw [Nat.add_assoc, ofMarch_monthStart_add hm hlt]
    · have he : monthStart month + day + 1 = monthStart (month + 1) + 0 := by omega
      rw [he, ofMarch_monthStart_add (by omega) (monthLength_pos year _)]
  · rw [if_neg hlast] at hend ⊢
    have hyear : monthStart month + day + 1 < marchLength year ↔
        day + 1 < monthLength year month := by omega
    rw [if_congr hyear rfl rfl]
    split
    · rename_i hlt
      rw [Nat.add_assoc, ofMarch_monthStart_add hm hlt]
    · exact (ofMarch_monthStart_add (by decide) (monthLength_pos (year + 1) 0)).symm

theorem isValid_ofMarch {year : Int} {doy : Nat} (h : doy < marchLength year) :
    (ofMarch year doy).isValid = true := by
  obtain ⟨month, day, hm, hd, rfl⟩ := exists_monthStart_add h
  rw [ofMarch_monthStart_add hm hd]
  exact isValid_marchDate hm hd

/-! ## Eras of four centuries -/

/-- The year of its era in which a day of the era lies. Both count from zero, and a year begins in
March. -/
def yearOfEra (dayOfEra : Nat) : Nat :=
  (dayOfEra - dayOfEra / 1460 + dayOfEra / 36524 - dayOfEra / 146096) / 365

/-- The day of its year that a day of an era is, counted from zero. -/
def dayOfYear (dayOfEra : Nat) : Nat :=
  dayOfEra - (365 * yearOfEra dayOfEra + yearOfEra dayOfEra / 4 - yearOfEra dayOfEra / 100)

/-- How many days of an era there are before a year of it. -/
def yearStart (year : Nat) : Nat := 365 * year + year / 4 - year / 100

theorem dateOfDay_eq (day : Int) :
    dateOfDay day =
      let dayOfEra := ((day + epochShift) % daysPerEra).toNat
      ofMarch (yearOfEra dayOfEra + (day + epochShift) / daysPerEra * 400) (dayOfYear dayOfEra) :=
  rfl

theorem yearStart_succ {year : Nat} (h : year < 399) :
    yearStart (year + 1) = yearStart year + marchLength year := by
  unfold yearStart marchLength
  split
  · rename_i hl
    rw [isLeap_iff] at hl
    omega
  · rename_i hl
    rw [isLeap_iff] at hl
    omega

/-- Only a year that ends with a leap day has a day 365, counted from zero. -/
theorem lt_marchLength_iff {year : Int} {doy : Nat} :
    doy < marchLength year ↔ doy < 365 ∨ doy = 365 ∧ isLeap (year + 1) = true := by
  unfold marchLength
  split
  · rename_i hl
    simp only [hl, and_true]
    omega
  · rename_i hl
    simp only [hl, Bool.false_eq_true, and_false, or_false]

/-- The last year of an era is its end. -/
theorem yearStart_add_marchLength : yearStart 399 + marchLength (399 : Nat) = 146097 := by
  decide

/-- Every day of an era is a day of one of its years. -/
theorem exists_yearStart_add {d : Nat} (h : d < 146097) :
    ∃ year doy : Nat, year < 400 ∧ doy < marchLength year ∧ d = yearStart year + doy := by
  induction d with
  | zero => exact ⟨0, 0, by decide, by decide, rfl⟩
  | succ d ih =>
    obtain ⟨year, doy, hy, hd, rfl⟩ := ih (by omega)
    by_cases hlt : doy + 1 < marchLength year
    · exact ⟨year, doy + 1, hy, hlt, rfl⟩
    · by_cases hlast : year < 399
      · refine ⟨year + 1, 0, by omega, marchLength_pos _, ?_⟩
        rw [yearStart_succ hlast]
        omega
      · obtain rfl : year = 399 := by omega
        have hend := yearStart_add_marchLength
        omega

/-- The year of a day is found from its number in the era. In a day 365 every fourth year ends. -/
theorem yearOfEra_yearStart_add {year doy : Nat} (hy : year < 400) (hd : doy < marchLength year) :
    yearOfEra (yearStart year + doy) = year := by
  -- A year lies in one of four centuries, and in one of its 25 groups of four years.
  obtain ⟨c, q, t, hc, hq, ht, rfl⟩ :
      ∃ c q t, c < 4 ∧ q < 25 ∧ t < 4 ∧ year = 100 * c + 4 * q + t :=
    ⟨year / 100, year % 100 / 4, year % 4, by omega, by omega, by omega, by omega⟩
  have hstart : yearStart (100 * c + 4 * q + t) = 36524 * c + 1461 * q + 365 * t := by
    unfold yearStart
    omega
  have hday : doy < 365 ∨ doy = 365 ∧ t = 3 ∧ (q < 24 ∨ q = 24 ∧ c = 3) := by
    rw [lt_marchLength_iff, isLeap_iff] at hd
    omega
  clear hd
  rw [hstart, yearOfEra]
  rcases hday with hd | ⟨rfl, rfl, hq | ⟨rfl, rfl⟩⟩
  · generalize hn : 36524 * c + 1461 * q + 365 * t + doy = n
    have hcentury : n / 36524 = c := by omega
    have hera : n / 146096 = 0 := by omega
    have hleap : n / 1460 = 25 * c + q + (24 * c + q + 365 * t + doy) / 1460 := by omega
    rw [hcentury, hera, hleap]
    omega
  · generalize hn : 36524 * c + 1461 * q + 365 * 3 + 365 = n
    have hcentury : n / 36524 = c := by omega
    have hera : n / 146096 = 0 := by omega
    have hleap : n / 1460 = 25 * c + q + 1 := by omega
    rw [hcentury, hera, hleap]
    omega
  · decide

/-- A day of an era, by its year and the day of the year. -/
theorem dateOfDay_ofEra (era : Int) {year doy : Nat} (hy : year < 400)
    (hd : doy < marchLength year) :
    dateOfDay (era * daysPerEra + (yearStart year + doy : Nat) - epochShift) =
      ofMarch (year + era * 400) doy := by
  have hlt : yearStart year + doy < 146097 := by
    rw [lt_marchLength_iff, isLeap_iff] at hd
    unfold yearStart
    omega
  have hday : era * daysPerEra + (yearStart year + doy : Nat) - epochShift + epochShift =
      era * daysPerEra + (yearStart year + doy : Nat) := by omega
  have hera : (era * daysPerEra + (yearStart year + doy : Nat)) / daysPerEra = era := by
    unfold daysPerEra
    omega
  have hrest : ((era * daysPerEra + (yearStart year + doy : Nat)) % daysPerEra).toNat =
      yearStart year + doy := by
    unfold daysPerEra
    omega
  rw [dateOfDay_eq, hday, hera, hrest]
  simp only [dayOfYear]
  rw [yearOfEra_yearStart_add hy hd, ← yearStart, Nat.add_sub_cancel_left]

theorem exists_era (day : Int) :
    ∃ era : Int, ∃ year doy : Nat, year < 400 ∧ doy < marchLength year ∧
      day = era * daysPerEra + (yearStart year + doy : Nat) - epochShift := by
  have hlt : ((day + epochShift) % daysPerEra).toNat < 146097 := by
    unfold daysPerEra
    omega
  obtain ⟨year, doy, hy, hd, he⟩ := exists_yearStart_add hlt
  refine ⟨(day + epochShift) / daysPerEra, year, doy, hy, hd, ?_⟩
  rw [← he]
  unfold daysPerEra
  omega

/-- From one day to the next the date goes on to the next one. -/
theorem dateOfDay_succ (day : Int) : dateOfDay (day + 1) = (dateOfDay day).next := by
  obtain ⟨era, year, doy, hy, hd, rfl⟩ := exists_era day
  have hd' : doy < marchLength (year + era * 400) := by rwa [marchLength_add_era]
  rw [dateOfDay_ofEra era hy hd, next_ofMarch hd', marchLength_add_era]
  split
  · rename_i hlt
    rw [← dateOfDay_ofEra era hy hlt]
    congr 1
    omega
  · by_cases hlast : year < 399
    · have hfirst := dateOfDay_ofEra era (show year + 1 < 400 by omega) (marchLength_pos _)
      rw [yearStart_succ hlast] at hfirst
      rw [show (year : Int) + era * 400 + 1 = (year + 1 : Nat) + era * 400 by omega, ← hfirst]
      congr 1
      omega
    · obtain rfl : year = 399 := by omega
      have hfirst := dateOfDay_ofEra (era + 1) (show 0 < 400 by decide) (marchLength_pos _)
      rw [show ((399 : Nat) : Int) + era * 400 + 1 = (0 : Nat) + (era + 1) * 400 by omega, ← hfirst]
      have hend := yearStart_add_marchLength
      congr 1
      rw [show yearStart 0 = 0 by decide]
      unfold daysPerEra
      omega

theorem isValid_dateOfDay (day : Int) : (dateOfDay day).isValid = true := by
  obtain ⟨era, year, doy, hy, hd, rfl⟩ := exists_era day
  rw [dateOfDay_ofEra era hy hd]
  exact isValid_ofMarch (by rwa [marchLength_add_era])

/-! ## The date of a day -/

theorem isDateOf_dateOfDay (day : Int) : IsDateOf day (dateOfDay day) := by
  induction day with
  | zero => exact .epoch
  | succ day ih =>
    rw [dateOfDay_succ]
    exact ih.next
  | pred day ih =>
    refine .back (isValid_dateOfDay _) ?_
    rw [← dateOfDay_succ, Int.sub_add_cancel]
    exact ih

/-- What is computed for a day is its date. -/
theorem isDateOf_iff {day : Int} {d : Date} : IsDateOf day d ↔ d = dateOfDay day := by
  constructor
  · intro h
    induction h with
    | epoch => decide
    | next _ ih => rw [dateOfDay_succ, ih]
    | back hv _ ih =>
      rw [dateOfDay_succ] at ih
      exact Date.next_inj hv (isValid_dateOfDay _) ih
  · rintro rfl
    exact isDateOf_dateOfDay day

/-- No day lies in an earlier year than one before it. -/
theorem year_le_of_le {a b : Int} (h : a ≤ b) : (dateOfDay a).year ≤ (dateOfDay b).year := by
  induction b, h using Int.leInduction with
  | base => exact Int.le_refl _
  | succ b _ ih =>
    rw [dateOfDay_succ]
    exact ih.trans (Date.year_le_next _)

/-- From the first day of 2101 on no day lies in an earlier year. -/
theorem le_year_of_le {day : Int} (h : dayOfDate ⟨2101, 1, 1⟩ ≤ day) :
    2101 ≤ (dateOfDay day).year :=
  Int.le_trans (by decide +kernel) (year_le_of_le h)

/-- Before the first day of 1970 no day lies in a later year than 1969. -/
theorem year_lt_of_neg {day : Int} (h : day < 0) : (dateOfDay day).year < 1970 :=
  Int.lt_of_le_of_lt (year_le_of_le (Int.le_sub_one_of_lt h)) (by decide +kernel)

end Calendar

end Pipeline
