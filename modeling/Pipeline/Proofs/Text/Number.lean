import Mathlib.Algebra.Ring.Nat
import Mathlib.Data.Bool.AllAny
import Mathlib.Data.List.Induction
import Pipeline.Text.Number

/-!
# Written numbers read back

* `Text.natural?_decimal`: the decimal digits of a number are read as that number.
* `Text.unsigned?_decimal`: so they are where numbers have a bound, unless the number is beyond it.
* `Text.lt_of_unsigned?`: no number beyond the bound is read.
* `Text.digitsFrom?_eq_some_iff`: hexadecimal digits of either case are read as the number that has
  them.
-/

namespace Pipeline

namespace Text

/-! ## Digits -/

/-- Each value below ten has its digit, and the digit has that value. -/
theorem digit?_digitChar {d : Nat} (h : d < 10) : digit? 10 (digitChar d) = some d := by
  have table : ∀ d < 10, digit? 10 (digitChar d) = some d := by decide
  exact table d h

theorem isDecimalDigit_digitChar {d : Nat} (h : d < 10) :
    isDecimalDigit (digitChar d) = true := by
  have table : ∀ d < 10, isDecimalDigit (digitChar d) = true := by decide
  exact table d h

/-- The digits of a number are decimal digits and nothing else. -/
theorem isDecimalDigit_of_mem_decimal {n : Nat} {c : Char} (h : c ∈ decimal n) :
    isDecimalDigit c = true := by
  induction n using decimal.induct with
  | case1 n hn =>
    rw [decimal, if_pos hn, List.mem_singleton] at h
    exact h ▸ isDecimalDigit_digitChar hn
  | case2 n hn ih =>
    rw [decimal, if_neg hn, List.mem_append, List.mem_singleton] at h
    rcases h with h | rfl
    · exact ih h
    · exact isDecimalDigit_digitChar (Nat.mod_lt n (by decide))

/-- No character that is not a digit is among the digits of a number. -/
theorem not_mem_decimal {n : Nat} {c : Char} (h : isDecimalDigit c = false) : c ∉ decimal n := by
  intro hc
  rw [isDecimalDigit_of_mem_decimal hc] at h
  exact absurd h (by decide)

theorem decimal_ne_nil (n : Nat) : decimal n ≠ [] := by
  rw [decimal]
  split <;> simp

/-! ## Reading -/

/-- Digits are read from the front, so that the value of the first ones is carried on. -/
theorem digitsFrom?_append (radix value : Nat) (cs ds : List Char) :
    digitsFrom? radix value (cs ++ ds) =
      (digitsFrom? radix value cs).bind fun first => digitsFrom? radix first ds := by
  induction cs generalizing value with
  | nil => rfl
  | cons c cs ih =>
    rw [List.cons_append, digitsFrom?, digitsFrom?]
    cases digit? radix c with
    | none => rfl
    | some d => exact ih _

theorem digitsFrom?_decimal (n : Nat) : digitsFrom? 10 0 (decimal n) = some n := by
  induction n using decimal.induct with
  | case1 n hn => simp [decimal, hn, digitsFrom?, digit?_digitChar]
  | case2 n hn ih =>
    have hd : digit? 10 (digitChar (n % 10)) = some (n % 10) :=
      digit?_digitChar (Nat.mod_lt n (by decide))
    rw [decimal, if_neg hn, digitsFrom?_append, ih, Option.bind_some, digitsFrom?, hd]
    exact congrArg some (Nat.div_add_mod' n 10)

/-- The decimal digits of a number are read as that number. -/
theorem natural?_decimal (n : Nat) : natural? 10 (decimal n) = some n := by
  obtain ⟨c, cs, h⟩ := List.exists_cons_of_ne_nil (decimal_ne_nil n)
  rw [h, natural?, ← h, digitsFrom?_decimal]

/-- What does not begin with a sign is read as a plain number. -/
theorem unsigned?_of_not_mem {limit : Nat} {cs : List Char} (h : '+' ∉ cs) :
    unsigned? limit cs = (natural? 10 cs).filter (· < limit) := by
  unfold unsigned?
  split
  · exact absurd List.mem_cons_self h
  · rfl

/-- What is read is within the bound. -/
theorem lt_of_unsigned? {limit n : Nat} {cs : List Char} (h : unsigned? limit cs = some n) :
    n < limit := by
  unfold unsigned? at h
  split at h <;> simpa using (Option.filter_eq_some_iff.mp h).2

/-- A number within the bound is read back from its decimal digits. -/
theorem unsigned?_decimal {limit n : Nat} (h : n < limit) :
    unsigned? limit (decimal n) = some n := by
  rw [unsigned?_of_not_mem (not_mem_decimal (by decide)), natural?_decimal]
  simp [h]

/-! ## Hexadecimal digits -/

theorem toLower_of_le {c : Char} (h : 128 ≤ c.toNat) : c.toLower = c := by
  refine dif_neg fun hu => ?_
  have hle : c.toNat ≤ 90 := hu.2
  omega

/-- A digit has a value just if it is, in lower case, the digit of the value. -/
theorem digit?_eq_some_iff {c : Char} {d : Nat} :
    digit? 16 c = some d ↔ d < 16 ∧ c.toLower = digitChar d := by
  have table (hc : c.toNat < 128) : ∀ d < 16, digit? 16 c = some d ↔ c.toLower = digitChar d := by
    have h : ∀ n < 128, ∀ d < 16,
        digit? 16 (Char.ofNat n) = some d ↔ (Char.ofNat n).toLower = digitChar d := by
      decide +kernel
    simpa using h c.toNat hc
  constructor
  · intro h
    have hc : c.toNat < 128 := toNat_lt_of_isHexDigit (by rw [isHexDigit, h]; rfl)
    have hd : d < 16 := by simpa using (Option.filter_eq_some_iff.mp h).2
    exact ⟨hd, (table hc d hd).mp h⟩
  · rintro ⟨hd, h⟩
    by_cases hc : c.toNat < 128
    · exact (table hc d hd).mpr h
    · have hsmall : ∀ d < 16, (digitChar d).toNat < 128 := by decide
      rw [toLower_of_le (Nat.le_of_not_lt hc)] at h
      exact absurd (h ▸ hsmall d hd) hc

@[simp] theorem length_hexadecimal (width n : Nat) : (hexadecimal width n).length = width := by
  induction width generalizing n with
  | zero => rfl
  | succ width ih => rw [hexadecimal, List.length_append, ih, List.length_singleton]

/-- The hexadecimal digits in lower case. -/
def hexDigits : List Char := "0123456789abcdef".toList

theorem hexadecimal_subset (width n : Nat) : hexadecimal width n ⊆ hexDigits := by
  have table : ∀ d < 16, digitChar d ∈ hexDigits := by decide
  induction width generalizing n with
  | zero => exact List.nil_subset hexDigits
  | succ width ih =>
    rw [hexadecimal, List.append_subset, List.cons_subset]
    exact ⟨ih (n / 16), table _ (Nat.mod_lt n (by decide)), List.nil_subset hexDigits⟩

/-- The digits that are written are in lower case. -/
theorem map_toLower_hexadecimal (width n : Nat) :
    (hexadecimal width n).map Char.toLower = hexadecimal width n := by
  have table : ∀ c ∈ hexDigits, c.toLower = c :=
    List.all_iff_forall_prop.mp (by decide)
  exact (List.map_congr_left fun c hc => table c (hexadecimal_subset width n hc)).trans
    (List.map_id _)

/-- Digits of either case are read as the number that has them. -/
theorem digitsFrom?_eq_some_iff {cs : List Char} {n : Nat} :
    digitsFrom? 16 0 cs = some n ↔
      n < 16 ^ cs.length ∧ cs.map Char.toLower = hexadecimal cs.length n := by
  -- The last digit is the one that is written last, so the induction is from the end.
  induction cs using List.reverseRecOn generalizing n with
  | nil => simp [digitsFrom?, hexadecimal, eq_comm]
  | append_singleton cs c ih =>
    have hlast (first : Nat) : digitsFrom? 16 first [c] = (digit? 16 c).map (first * 16 + ·) := by
      rw [digitsFrom?]
      cases digit? 16 c <;> rfl
    simp only [digitsFrom?_append, hlast, Option.bind_eq_some_iff, Option.map_eq_some_iff, ih,
      digit?_eq_some_iff, List.length_append, List.length_singleton, List.map_append,
      List.map_singleton, hexadecimal, Nat.pow_succ]
    constructor
    · rintro ⟨first, ⟨hlt, hcs⟩, d, ⟨hd, hc⟩, rfl⟩
      have hdiv : (first * 16 + d) / 16 = first := by omega
      have hmod : (first * 16 + d) % 16 = d := by omega
      exact ⟨by omega, by rw [hdiv, hmod, hcs, hc]⟩
    · rintro ⟨hlt, hcs⟩
      obtain ⟨hcs, hc⟩ := List.append_inj' hcs rfl
      exact ⟨n / 16, ⟨by omega, hcs⟩, n % 16, ⟨Nat.mod_lt n (by decide), List.head_eq_of_cons_eq hc⟩,
        Nat.div_add_mod' n 16⟩

/-- The digits of a number are read as the number, if there is room for all of them. -/
theorem digitsFrom?_hexadecimal {width n : Nat} (h : n < 16 ^ width) :
    digitsFrom? 16 0 (hexadecimal width n) = some n := by
  rw [digitsFrom?_eq_some_iff, length_hexadecimal]
  exact ⟨h, map_toLower_hexadecimal width n⟩

end Text

end Pipeline
