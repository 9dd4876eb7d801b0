import Mathlib.Order.Bounds.Basic
import Pipeline.Proofs.Calendar
import Pipeline.Proofs.Cron.Values

/-!
# The search for the next time of a schedule

* `Cron.FindsFirst`: what a search between two numbers is to find.
* `Cron.FindsFirst.carry`: a search for numbers of two digits, from searches for each digit. The
  minutes and seconds of an hour, the hours of a day and the days with their times are all searched
  in this way.
* `Cron.Schedule.Regular.isLeast_of_next?`, `Cron.Schedule.Regular.firesAt_eq_false_of_next?`: of a
  schedule that was read, the first time from a second on is found, if there is one.
-/

namespace Pipeline

namespace Cron

/-! ## First numbers -/

/-- What is found is the least number from `n` to `m`, without `m`, for which `p` holds. Nothing is
found only if there is none. -/
def FindsFirst (p : Nat → Bool) (n m : Nat) : Option Nat → Prop
  | some t => IsLeast {u | (n ≤ u ∧ u < m) ∧ p u = true} t
  | none => ∀ u, n ≤ u → u < m → p u = false

/-- What holds of a number whose last digit to a base satisfies `low` and whose other digits satisfy
`high`. -/
def twoDigits (base : Nat) (high low : Nat → Bool) (t : Nat) : Bool :=
  high (t / base) && low (t % base)

theorem twoDigits_mul_add {base a b : Nat} {high low : Nat → Bool} (h : b < base) :
    twoDigits base high low (a * base + b) = (high a && low b) := by
  have hpos : 0 < base := by omega
  rw [twoDigits, Nat.mul_comm, Nat.mul_add_div hpos, Nat.div_eq_of_lt h, Nat.mul_add_mod,
    Nat.mod_eq_of_lt h, Nat.add_zero]

theorem mul_add_lt {base a b c : Nat} (hb : b < base) (h : a < c) : a * base + b < c * base := by
  have : (a + 1) * base ≤ c * base := Nat.mul_le_mul_right base h
  rw [Nat.succ_mul] at this
  omega

namespace FindsFirst

variable {p high low : Nat → Bool} {n m k base a b c top : Nat} {r later first : Option Nat}

/-- A search goes on where another one has found nothing. -/
theorem or (hnm : n ≤ m) (hmk : m ≤ k) (h : FindsFirst p n m r) (hl : FindsFirst p m k later) :
    FindsFirst p n k (r.or later) := by
  cases r with
  | some t =>
    obtain ⟨⟨⟨hn, hm⟩, hp⟩, hle⟩ := h
    refine ⟨⟨⟨hn, by omega⟩, hp⟩, fun u hu => ?_⟩
    by_cases hum : u < m
    · exact hle ⟨⟨hu.1.1, hum⟩, hu.2⟩
    · omega
  | none =>
    cases later with
    | some t =>
      obtain ⟨⟨⟨hm, hk⟩, hp⟩, hle⟩ := hl
      refine ⟨⟨⟨by omega, hk⟩, hp⟩, fun u hu => ?_⟩
      by_cases hum : u < m
      · simp [h u hu.1.1 hum] at hu
      · exact hle ⟨⟨by omega, hu.1.2⟩, hu.2⟩
    | none =>
      intro u hn hk
      by_cases hum : u < m
      · exact h u hn hum
      · exact hl u (by omega) hk

/-- Among the numbers with one first digit the last digit is searched. -/
theorem here (h : FindsFirst low b base r) :
    FindsFirst (twoDigits base high low) (a * base + b) ((a + 1) * base)
      (if high a then r.map (a * base + ·) else none) := by
  have last (u) (hn : a * base + b ≤ u) (hm : u < (a + 1) * base) :
      ∃ x, b ≤ x ∧ x < base ∧ u = a * base + x := by
    rw [Nat.succ_mul] at hm
    exact ⟨u - a * base, by omega, by omega, by omega⟩
  cases ha : high a with
  | false =>
    intro u hn hm
    obtain ⟨x, -, hx, rfl⟩ := last u hn hm
    rw [twoDigits_mul_add hx, ha, Bool.false_and]
  | true =>
    cases r with
    | none =>
      intro u hn hm
      obtain ⟨x, hb, hx, rfl⟩ := last u hn hm
      rw [twoDigits_mul_add hx, ha, h x hb hx, Bool.and_false]
    | some t =>
      obtain ⟨⟨⟨hb, ht⟩, hlow⟩, hle⟩ := h
      refine ⟨⟨⟨Nat.add_le_add_left hb _, mul_add_lt ht a.lt_succ_self⟩, ?_⟩, ?_⟩
      · rw [twoDigits_mul_add ht, ha, hlow, Bool.and_self]
      · rintro u ⟨⟨hn, hm⟩, hu⟩
        obtain ⟨x, hb, hx, rfl⟩ := last u hn hm
        rw [twoDigits_mul_add hx, ha, Bool.true_and] at hu
        exact Nat.add_le_add_left (hle ⟨⟨hb, hx⟩, hu⟩) _

/-- Among the numbers with a first digit from `c` on, the least one has the least digits. -/
theorem digits (hpos : 0 < base) (hh : FindsFirst high c top first)
    (hl : FindsFirst low 0 base r) :
    FindsFirst (twoDigits base high low) (c * base) (top * base)
      (do let a ← first; let b ← r; some (a * base + b)) := by
  have both (u) (hn : c * base ≤ u) (hm : u < top * base) :
      ∃ a x, (c ≤ a ∧ a < top) ∧ x < base ∧ u = a * base + x := by
    refine ⟨u / base, u % base, ⟨?_, ?_⟩, Nat.mod_lt u hpos, (Nat.div_add_mod' u base).symm⟩
    · exact (Nat.le_div_iff_mul_le hpos).mpr hn
    · exact (Nat.div_lt_iff_lt_mul hpos).mpr hm
  cases first with
  | none =>
    intro u hn hm
    obtain ⟨a, x, ⟨hc, ht⟩, hx, rfl⟩ := both u hn hm
    rw [twoDigits_mul_add hx, hh a hc ht, Bool.false_and]
  | some a =>
    cases r with
    | none =>
      intro u hn hm
      obtain ⟨a, x, -, hx, rfl⟩ := both u hn hm
      rw [twoDigits_mul_add hx, hl x (Nat.zero_le x) hx, Bool.and_false]
    | some b =>
      obtain ⟨⟨⟨hc, ht⟩, hhigh⟩, hleast⟩ := hh
      obtain ⟨⟨⟨-, hb⟩, hlow⟩, hle⟩ := hl
      refine ⟨⟨⟨?_, mul_add_lt hb ht⟩, ?_⟩, ?_⟩
      · exact (Nat.mul_le_mul_right base hc).trans (Nat.le_add_right _ b)
      · rw [twoDigits_mul_add hb, hhigh, hlow, Bool.and_self]
      · rintro u ⟨⟨hn, hm⟩, hu⟩
        obtain ⟨a', x, ha', hx, rfl⟩ := both u hn hm
        rw [twoDigits_mul_add hx, Bool.and_eq_true] at hu
        rcases (hleast ⟨ha', hu.1⟩).eq_or_lt with rfl | hlt
        · exact Nat.add_le_add_left (hle ⟨⟨Nat.zero_le x, hx⟩, hu.2⟩) _
        · exact (mul_add_lt hb hlt).le.trans (Nat.le_add_right _ x)

/-- Numbers are searched from two digits on: first those with the same first digit, then those with
a greater one. -/
theorem carry (hpos : 0 < base) (ha : a < top) (hb : b ≤ base) (hr : FindsFirst low b base r)
    (hh : FindsFirst high (a + 1) top first) (hl : FindsFirst low 0 base later) :
    FindsFirst (twoDigits base high low) (a * base + b) (top * base)
      ((if high a then r.map (a * base + ·) else none).or
        (do let a ← first; let b ← later; some (a * base + b))) := by
  refine or ?_ (Nat.mul_le_mul_right base ha) (here hr) (digits hpos hh hl)
  rw [Nat.succ_mul]
  exact Nat.add_le_add_left hb _

/-- Where `p` holds of no number from `m` on, what is found is the least one of all. -/
theorem isLeast {t : Nat} (h : FindsFirst p n m (some t)) (hm : ∀ u, p u = true → u < m) :
    IsLeast {u | n ≤ u ∧ p u = true} t :=
  ⟨⟨h.1.1.1, h.1.2⟩, fun u hu => h.2 ⟨⟨hu.1, hm u hu.2⟩, hu.2⟩⟩

theorem eq_false {u : Nat} (h : FindsFirst p n m none) (hm : ∀ u, p u = true → u < m)
    (hn : n ≤ u) : p u = false := by
  by_contra hu
  rw [Bool.not_eq_false] at hu
  exact Bool.false_ne_true ((h u hn (hm u hu)).symm.trans hu)

/-- In a list of ascending numbers the first one found is the least one. -/
theorem firstFrom? {values : List Nat} (hlt : ∀ v ∈ values, v < m)
    (h : values.Pairwise (· < ·)) :
    FindsFirst values.contains n m (Schedule.firstFrom? n values) := by
  unfold Schedule.firstFrom?
  cases hf : values.find? (n ≤ ·) with
  | none =>
    intro u hn _
    refine Bool.eq_false_iff.mpr fun hu => ?_
    exact List.find?_eq_none.mp hf u (List.contains_iff_mem.mp hu) (decide_eq_true hn)
  | some t =>
    obtain ⟨ht, before, after, rfl, hbefore⟩ := List.find?_eq_some_iff_append.mp hf
    have hmem : t ∈ before ++ t :: after := List.mem_append_right _ List.mem_cons_self
    refine ⟨⟨⟨of_decide_eq_true ht, hlt t hmem⟩, List.contains_iff_mem.mpr hmem⟩, ?_⟩
    rintro u ⟨⟨hn, -⟩, hu⟩
    rcases List.mem_append.mp (List.contains_iff_mem.mp hu) with hb | ha
    · have := hbefore u hb
      rw [Bool.not_eq_true', decide_eq_false_iff_not] at this
      exact absurd hn this
    · rcases List.mem_cons.mp ha with rfl | ha
      · rfl
      · have hafter := (List.pairwise_append.mp h).2.1
        exact (List.rel_of_pairwise_cons hafter ha).le

end FindsFirst

namespace Schedule

variable {s : Schedule}

/-! ## Within a day -/

/-- The minute and second of an hour. -/
def firesAtMinute (s : Schedule) : Nat → Bool := twoDigits 60 s.minutes.contains s.seconds.contains

theorem firesAtTime_eq : s.firesAtTime = twoDigits 3600 s.hours.contains s.firesAtMinute := by
  funext t
  have hm : t % 3600 / 60 = t / 60 % 60 := by omega
  have hs : t % 3600 % 60 = t % 60 := by omega
  rw [firesAtTime, twoDigits, firesAtMinute, twoDigits, hm, hs, Bool.and_assoc]

theorem timeInHour?_eq {minute second : Nat} :
    s.timeInHour? minute second =
      (if s.minutes.contains minute then
        (firstFrom? second s.seconds).map (minute * 60 + ·) else none).or
      (do let m ← firstFrom? (minute + 1) s.minutes
          let x ← s.seconds.head?
          some (m * 60 + x)) := by
  unfold timeInHour?
  split
  · cases firstFrom? second s.seconds <;> rfl
  · rfl

/-- The first minute and second of an hour at which the schedule fires. -/
def firstTimeInHour? (s : Schedule) : Option Nat := do
  let m ← s.minutes.head?
  let x ← s.seconds.head?
  some (m * 60 + x)

theorem timeInDay?_eq {time : Nat} :
    s.timeInDay? time =
      (if s.hours.contains (time / 3600) then
        (s.timeInHour? (time / 60 % 60) (time % 60)).map (time / 3600 * 3600 + ·) else none).or
      (do let h ← firstFrom? (time / 3600 + 1) s.hours
          let t ← s.firstTimeInHour?
          some (h * 3600 + t)) := by
  have hlater : (do
      let h ← firstFrom? (time / 3600 + 1) s.hours
      let m ← s.minutes.head?
      let x ← s.seconds.head?
      some (h * 3600 + m * 60 + x)) = (do
      let h ← firstFrom? (time / 3600 + 1) s.hours
      let t ← s.firstTimeInHour?
      some (h * 3600 + t)) := by
    simp [firstTimeInHour?, Option.bind_assoc, Nat.add_assoc]
  unfold timeInDay?
  simp only [hlater]
  split
  · cases s.timeInHour? (time / 60 % 60) (time % 60) <;> rfl
  · rfl

theorem search?_succ {days day time : Nat} :
    s.search? (days + 1) day time =
      (if s.firesOn day then
        (s.timeInDay? time).map (day * Calendar.daySeconds + ·) else none).or
      (s.search? days (day + 1) 0) := by
  rw [search?]
  cases s.firesOn day with
  | false => rfl
  | true => cases s.timeInDay? time <;> rfl

theorem head?_eq_firstFrom? {values : List Nat} : values.head? = firstFrom? 0 values := by
  cases values <;> simp [firstFrom?]

namespace Regular

theorem findsFirst {unit : Unit} {values : List Nat} (h : values.Sublist unit.all) {n m : Nat}
    (hm : unit.greatest < m) : FindsFirst values.contains n m (firstFrom? n values) :=
  .firstFrom? (fun _ hv => (Unit.mem_all.mp (h.subset hv)).2.trans_lt hm)
    (Unit.pairwise_all.sublist h)

theorem findsFirst_timeInHour? (h : s.Regular) {minute second : Nat} (hm : minute < 60)
    (hs : second ≤ 60) :
    FindsFirst s.firesAtMinute (minute * 60 + second) (60 * 60) (s.timeInHour? minute second) := by
  rw [timeInHour?_eq, head?_eq_firstFrom?]
  exact .carry (by decide) hm hs (findsFirst h.seconds (by decide))
    (findsFirst h.minutes (by decide)) (findsFirst h.seconds (by decide))

theorem findsFirst_firstTimeInHour? (h : s.Regular) :
    FindsFirst s.firesAtMinute (0 * 60) (60 * 60) s.firstTimeInHour? := by
  rw [firstTimeInHour?, head?_eq_firstFrom?, head?_eq_firstFrom?]
  exact .digits (by decide) (findsFirst h.minutes (by decide)) (findsFirst h.seconds (by decide))

theorem findsFirst_timeInDay? (h : s.Regular) {time : Nat} (ht : time < Calendar.daySeconds) :
    FindsFirst s.firesAtTime time Calendar.daySeconds (s.timeInDay? time) := by
  unfold Calendar.daySeconds at *
  have hour : time / 3600 < 24 := by omega
  have minute : time / 60 % 60 < 60 := Nat.mod_lt _ (by decide)
  have second : time % 60 ≤ 60 := (Nat.mod_lt _ (by decide)).le
  have hinHour := h.findsFirst_timeInHour? minute second
  have hlater := findsFirst (n := time / 3600 + 1) h.hours (show Unit.hour.greatest < 24 by decide)
  have hfound := FindsFirst.carry (by decide) hour (by omega) hinHour hlater
    h.findsFirst_firstTimeInHour?
  have hsplit : time / 3600 * (60 * 60) + (time / 60 % 60 * 60 + time % 60) = time := by omega
  rw [hsplit] at hfound
  rw [timeInDay?_eq, firesAtTime_eq]
  exact hfound

/-! ## Over the days -/

theorem findsFirst_search? (h : s.Regular) {days day time : Nat}
    (ht : time < Calendar.daySeconds) :
    FindsFirst s.firesAt (day * Calendar.daySeconds + time) ((day + days) * Calendar.daySeconds)
      (s.search? days day time) := by
  induction days generalizing day time with
  | zero =>
    intro u hn hm
    rw [Nat.add_zero] at hm
    omega
  | succ days ih =>
    have htoday : FindsFirst s.firesAt (day * Calendar.daySeconds + time)
        ((day + 1) * Calendar.daySeconds) _ := .here (h.findsFirst_timeInDay? ht)
    have hrest := @ih (day + 1) 0 (by decide)
    rw [Nat.add_zero, Nat.add_right_comm] at hrest
    rw [search?_succ]
    refine .or ?_ (Nat.mul_le_mul_right _ (by omega)) htoday hrest
    exact (mul_add_lt ht day.lt_succ_self).le

/-- No schedule fires on a day after the last year that a field can name. -/
theorem day_lt_lastDay (h : s.Regular) {day : Nat} (hf : s.firesOn day = true) :
    day < lastDay := by
  by_contra hle
  have hyear := Calendar.le_year_of_le (Int.toNat_le.mp (Nat.le_of_not_lt hle))
  simp only [firesOn, Bool.and_eq_true] at hf
  have hmem := h.years.subset (List.contains_iff_mem.mp hf.2)
  have hgreatest : (Calendar.dateOfDay day).year.toNat ≤ 2100 := (Unit.mem_all.mp hmem).2
  omega

theorem lt_of_firesAt (h : s.Regular) {t : Nat} (hf : s.firesAt t = true) :
    t < lastDay * Calendar.daySeconds := by
  rw [firesAt, Bool.and_eq_true] at hf
  exact (Nat.div_lt_iff_lt_mul (by decide)).mp (h.day_lt_lastDay hf.1)

theorem findsFirst_next? (h : s.Regular) (t : Nat) :
    ∃ m, (∀ u, s.firesAt u = true → u < m) ∧ FindsFirst s.firesAt t m (s.next? t) := by
  have htime : t % Calendar.daySeconds < Calendar.daySeconds := Nat.mod_lt t (by decide)
  have hfound := @findsFirst_search? s h (lastDay - t / Calendar.daySeconds)
    (t / Calendar.daySeconds) _ htime
  rw [Nat.div_add_mod'] at hfound
  refine ⟨_, fun u hu => ?_, hfound⟩
  exact (h.lt_of_firesAt hu).trans_le (Nat.mul_le_mul_right _ (by omega))

/-- What is found is the first second from `t` on at which the schedule fires. -/
theorem isLeast_of_next? (h : s.Regular) {t found : Nat} (hn : s.next? t = some found) :
    IsLeast {u | t ≤ u ∧ s.firesAt u = true} found := by
  obtain ⟨m, hm, hfound⟩ := h.findsFirst_next? t
  rw [hn] at hfound
  exact hfound.isLeast hm

/-- If nothing is found, the schedule does not fire from `t` on. -/
theorem firesAt_eq_false_of_next? (h : s.Regular) {t u : Nat} (hn : s.next? t = none)
    (hu : t ≤ u) : s.firesAt u = false := by
  obtain ⟨m, hm, hfound⟩ := h.findsFirst_next? t
  rw [hn] at hfound
  exact hfound.eq_false hm hu

end Regular

end Schedule

end Cron

end Pipeline
