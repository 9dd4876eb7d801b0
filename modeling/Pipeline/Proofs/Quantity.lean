import Mathlib.Data.List.TakeWhile
import Pipeline.Quantity
import Pipeline.Text.Number

/-!
# Which texts are quantities

The form of a quantity, said without the reader: a sign, a number and a scale, of which only the
number has to be there. What counts as a digit is left open: the reader takes the decimal digits of
every script, not only `0` to `9`.

* `Quantity.of_afterNumber?_eq_some`, `Quantity.afterNumber?_append`: the reader takes a number off
  the start of a text, and takes all of it.
* `Quantity.isQuantity_iff`: a text is a quantity if it has the form.
* `Quantity.form_decimal_iff`: the form with the digits `0` to `9` only.
-/

namespace Pipeline

namespace Quantity

/-! ## The form -/

/-- A run of digits that is not empty. -/
structure Digits (digit : Char → Bool) (cs : List Char) : Prop where
  ne_nil : cs ≠ []
  all : ∀ c ∈ cs, digit c = true

/-- A sign, or none. -/
inductive IsSign : List Char → Prop
  | absent : IsSign []
  | plus : IsSign ['+']
  | minus : IsSign ['-']

/-- Digits, perhaps with a point behind them or among them, or a point and digits. -/
inductive IsNumber (digit : Char → Bool) : List Char → Prop
  | whole {ds : List Char} : Digits digit ds → IsNumber digit ds
  | mixed {ds fs : List Char} : Digits digit ds → (∀ c ∈ fs, digit c = true) →
      IsNumber digit (ds ++ '.' :: fs)
  | fraction {fs : List Char} : Digits digit fs → IsNumber digit ('.' :: fs)

/-- The powers of a thousand and of 1024 that have a name. -/
def names : List String :=
  ["m", "k", "M", "G", "T", "P", "E", "Ki", "Mi", "Gi", "Ti", "Pi", "Ei"]

/-- The name of a power, a power of ten in digits, or nothing. -/
inductive IsScaling (digit : Char → Bool) : List Char → Prop
  | absent : IsScaling digit []
  | named {s : String} : s ∈ names → IsScaling digit s.toList
  | exponent {e : Char} {sign ds : List Char} : e = 'e' ∨ e = 'E' → IsSign sign →
      Digits digit ds → IsScaling digit (e :: (sign ++ ds))

/-- A sign, a number and a scale. -/
def Form (digit : Char → Bool) (cs : List Char) : Prop :=
  ∃ sign number scale, cs = sign ++ (number ++ scale) ∧ IsSign sign ∧ IsNumber digit number ∧
    IsScaling digit scale

variable {digit : Char → Bool} {cs sign number rest : List Char}

/-! ## Signs -/

theorem exists_sign_append (cs : List Char) : ∃ sign, IsSign sign ∧ cs = sign ++ dropSign cs := by
  cases cs with
  | nil => exact ⟨[], .absent, rfl⟩
  | cons c cs =>
    by_cases hc : c = '+' ∨ c = '-'
    · refine ⟨[c], ?_, by rw [dropSign, if_pos hc]; rfl⟩
      rcases hc with rfl | rfl
      · exact .plus
      · exact .minus
    · exact ⟨[], .absent, by rw [dropSign, if_neg hc]; rfl⟩

/-- A sign is dropped, and no more than one. -/
theorem dropSign_append (h : IsSign sign) (hc : ∀ c ∈ cs.head?, ¬ (c = '+' ∨ c = '-')) :
    dropSign (sign ++ cs) = cs := by
  cases h with
  | absent =>
    cases cs with
    | nil => rfl
    | cons c cs => exact if_neg (hc c rfl)
  | plus => rfl
  | minus => rfl

/-! ## Scales -/

theorem isDigits_iff : isDigits cs = true ↔ Digits Text.isDigitChar cs := by
  rw [isDigits, Bool.and_eq_true, List.all_eq_true, Bool.not_eq_true', Bool.eq_false_iff, Ne,
    List.isEmpty_iff]
  exact ⟨fun h => ⟨h.1, h.2⟩, fun h => ⟨h.1, h.2⟩⟩

/-- Digits begin with no sign. -/
theorem Digits.head_ne_sign (h : Digits Text.isDigitChar cs) (rest : List Char) :
    ∀ c ∈ (cs ++ rest).head?, ¬ (c = '+' ∨ c = '-') := by
  intro c hc
  cases cs with
  | nil => exact absurd rfl h.ne_nil
  | cons d ds =>
    obtain rfl := Option.some.inj hc
    have hd := h.all d List.mem_cons_self
    rintro (rfl | rfl) <;> exact absurd hd (by decide)

theorem isExponent_iff : isExponent cs = true ↔ ∃ e sign ds, cs = e :: (sign ++ ds) ∧
    (e = 'e' ∨ e = 'E') ∧ IsSign sign ∧ Digits Text.isDigitChar ds := by
  cases cs with
  | nil => simp [isExponent]
  | cons c cs =>
    rw [isExponent, Bool.and_eq_true, Bool.or_eq_true, beq_iff_eq, beq_iff_eq, isDigits_iff]
    constructor
    · rintro ⟨he, hd⟩
      obtain ⟨sign, hs, hcs⟩ := exists_sign_append cs
      exact ⟨c, sign, dropSign cs, by rw [← hcs], he, hs, hd⟩
    · rintro ⟨e, sign, ds, he, hc, hs, hd⟩
      obtain ⟨rfl, rfl⟩ := List.cons.inj he
      have hhead := hd.head_ne_sign []
      rw [List.append_nil] at hhead
      rw [dropSign_append hs hhead]
      exact ⟨hc, hd⟩

theorem isScale_iff : isScale cs = true ↔ IsScaling Text.isDigitChar cs := by
  rw [isScale, Bool.or_eq_true, Bool.or_eq_true, List.isEmpty_iff, List.contains_iff_mem,
    isExponent_iff]
  constructor
  · rintro ((rfl | hs) | ⟨e, sign, ds, rfl, he, hs, hd⟩)
    · exact .absent
    · obtain ⟨s, hm, rfl⟩ := List.mem_map.mp hs
      exact .named hm
    · exact .exponent he hs hd
  · intro h
    cases h with
    | absent => exact .inl (.inl rfl)
    | named hs => exact .inl (.inr (List.mem_map_of_mem hs))
    | exponent he hs hd => exact .inr ⟨_, _, _, rfl, he, hs, hd⟩

/-! ## Marks -/

/-- The characters of a quantity that are no digits. -/
def marks : List Char :=
  ['+', '-', '.', 'e', 'E', 'm', 'k', 'M', 'G', 'T', 'P', 'K', 'i']

theorem isDigitChar_of_mem_marks {c : Char} (h : c ∈ marks) : Text.isDigitChar c = false := by
  have table : marks.all (fun c => !Text.isDigitChar c) = true := by decide
  simpa using List.all_eq_true.mp table c h

theorem mem_marks_of_mem_names {s : String} {c : Char} (hs : s ∈ names) (hc : c ∈ s.toList) :
    c ∈ marks ∧ c ≠ '.' := by
  have table : names.all (fun s => s.toList.all fun c => marks.contains c && c != '.') = true := by
    decide
  simpa using List.all_eq_true.mp (List.all_eq_true.mp table s hs) c hc

/-! ## Numbers -/

/-- A text that does not go on a number: it begins with no digit and no point. -/
def EndsNumber (rest : List Char) : Prop :=
  ∀ c ∈ rest.head?, Text.isDigitChar c = false ∧ c ≠ '.'

theorem IsScaling.endsNumber (h : IsScaling Text.isDigitChar rest) : EndsNumber rest := by
  intro c hc
  cases h with
  | absent => cases hc
  | named hs =>
    obtain ⟨hmark, hpoint⟩ := mem_marks_of_mem_names hs (List.mem_of_mem_head? hc)
    exact ⟨isDigitChar_of_mem_marks hmark, hpoint⟩
  | exponent he hs hd =>
    obtain rfl := Option.some.inj hc
    rcases he with rfl | rfl <;> decide

/-- Digits are taken off a text up to its first character that is none. -/
theorem span_append {ds : List Char} (hd : ∀ c ∈ ds, digit c = true)
    (hr : ∀ c ∈ rest.head?, digit c = false) :
    (ds ++ rest).takeWhile digit = ds ∧ (ds ++ rest).dropWhile digit = rest := by
  rw [List.takeWhile_append_of_pos hd, List.dropWhile_append_of_pos hd]
  cases rest with
  | nil => simp
  | cons c rest => simp [hr c rfl]

theorem exists_span (digit : Char → Bool) (cs : List Char) :
    ∃ ds rest, cs = ds ++ rest ∧ (∀ c ∈ ds, digit c = true) ∧ ∀ c ∈ rest.head?, digit c = false := by
  refine ⟨cs.takeWhile digit, cs.dropWhile digit, List.takeWhile_append_dropWhile.symm,
    fun c => List.mem_takeWhile_imp, fun c hc => ?_⟩
  simpa [Option.mem_def.mp hc] using List.head?_dropWhile_not digit cs

theorem afterNumber?_point {ds fs : List Char} (hd : ∀ c ∈ ds, Text.isDigitChar c = true)
    (hf : ∀ c ∈ fs, Text.isDigitChar c = true)
    (hr : ∀ c ∈ rest.head?, Text.isDigitChar c = false) :
    afterNumber? (ds ++ '.' :: (fs ++ rest)) =
      if ds = [] ∧ fs = [] then none else some rest := by
  have hpoint : ∀ c ∈ ('.' :: (fs ++ rest)).head?, Text.isDigitChar c = false := by
    intro c hc
    obtain rfl := Option.some.inj hc
    decide
  obtain ⟨hwhole, hbehind⟩ := span_append hd hpoint
  obtain ⟨hfraction, hrest⟩ := span_append hf hr
  simp only [afterNumber?, hwhole, hbehind, hfraction, hrest, Bool.and_eq_true, List.isEmpty_iff]

theorem afterNumber?_noPoint {ds : List Char} (hd : ∀ c ∈ ds, Text.isDigitChar c = true)
    (hr : EndsNumber rest) :
    afterNumber? (ds ++ rest) = if ds = [] then none else some rest := by
  obtain ⟨hwhole, hbehind⟩ := span_append hd fun c hc => (hr c hc).1
  rw [afterNumber?, hwhole, hbehind]
  split
  · exact absurd rfl (hr '.' rfl).2
  · simp only [List.isEmpty_iff]

/-- What is taken off is a number. -/
theorem of_afterNumber?_eq_some (h : afterNumber? cs = some rest) :
    ∃ number, cs = number ++ rest ∧ IsNumber Text.isDigitChar number := by
  obtain ⟨ds, behind, rfl, hd, hb⟩ := exists_span Text.isDigitChar cs
  by_cases hpoint : ∃ fraction, behind = '.' :: fraction
  · obtain ⟨fraction, rfl⟩ := hpoint
    obtain ⟨fs, rest', rfl, hf, hr⟩ := exists_span Text.isDigitChar fraction
    rw [afterNumber?_point hd hf hr] at h
    split at h
    · cases h
    · rename_i hne
      obtain rfl := Option.some.inj h
      refine ⟨ds ++ '.' :: fs, by simp, ?_⟩
      by_cases hds : ds = []
      · subst hds
        exact .fraction ⟨fun hfs => hne ⟨rfl, hfs⟩, hf⟩
      · exact .mixed ⟨hds, hd⟩ hf
  · have hends : EndsNumber behind := by
      intro c hc
      refine ⟨hb c hc, ?_⟩
      rintro rfl
      obtain ⟨fraction, hf⟩ := List.head?_eq_some_iff.mp hc
      exact hpoint ⟨fraction, hf⟩
    rw [afterNumber?_noPoint hd hends] at h
    split at h
    · cases h
    · rename_i hds
      obtain rfl := Option.some.inj h
      exact ⟨ds, rfl, .whole ⟨hds, hd⟩⟩

/-- The whole of a number is taken off. -/
theorem afterNumber?_append (h : IsNumber Text.isDigitChar number) (hr : EndsNumber rest) :
    afterNumber? (number ++ rest) = some rest := by
  have hrest : ∀ c ∈ rest.head?, Text.isDigitChar c = false := fun c hc => (hr c hc).1
  cases h with
  | whole hd => rw [afterNumber?_noPoint hd.all hr, if_neg hd.ne_nil]
  | @mixed ds fs hd hf =>
    rw [List.append_assoc, List.cons_append, afterNumber?_point hd.all hf hrest,
      if_neg fun he => hd.ne_nil he.1]
  | @fraction fs hf =>
    have hnone : ∀ c ∈ [], Text.isDigitChar c = true := fun _ hc => absurd hc List.not_mem_nil
    rw [← List.nil_append ('.' :: fs), List.append_assoc, List.cons_append,
      afterNumber?_point hnone hf.all hrest, if_neg fun he => hf.ne_nil he.2]

theorem IsNumber.head_ne_sign (h : IsNumber Text.isDigitChar number) (rest : List Char) :
    ∀ c ∈ (number ++ rest).head?, ¬ (c = '+' ∨ c = '-') := by
  cases h with
  | whole hd => exact hd.head_ne_sign rest
  | mixed hd hf =>
    rw [List.append_assoc]
    exact hd.head_ne_sign _
  | fraction hf =>
    intro c hc
    obtain rfl := Option.some.inj hc
    decide

/-! ## Quantities -/

/-- The reader accepts the texts that have the form of a quantity, and no others. -/
theorem isQuantity_iff {s : String} :
    isQuantity s = true ↔ Form Text.isDigitChar s.toList := by
  rw [isQuantity, isQuantityChars]
  constructor
  · intro h
    split at h
    · rename_i scale hn
      obtain ⟨sign, hs, hcs⟩ := exists_sign_append s.toList
      obtain ⟨number, hnumber, hform⟩ := of_afterNumber?_eq_some hn
      exact ⟨sign, number, scale, by rw [← hnumber, ← hcs], hs, hform, isScale_iff.mp h⟩
    · cases h
  · rintro ⟨sign, number, scale, hcs, hs, hn, hscale⟩
    rw [hcs, dropSign_append hs (hn.head_ne_sign scale), afterNumber?_append hn hscale.endsNumber]
    exact isScale_iff.mpr hscale

/-! ## Digits of one script -/

theorem IsSign.mem_marks (h : IsSign cs) : ∀ c ∈ cs, c ∈ marks := by
  cases h <;> simp [marks]

theorem IsNumber.digit_or_mem_marks (h : IsNumber digit cs) :
    ∀ c ∈ cs, digit c = true ∨ c ∈ marks := by
  intro c hc
  cases h with
  | whole hd => exact .inl (hd.all c hc)
  | mixed hd hf =>
    rcases List.mem_append.mp hc with hc | hc
    · exact .inl (hd.all c hc)
    · rcases List.mem_cons.mp hc with rfl | hc
      · exact .inr (by decide)
      · exact .inl (hf c hc)
  | fraction hf =>
    rcases List.mem_cons.mp hc with rfl | hc
    · exact .inr (by decide)
    · exact .inl (hf.all c hc)

theorem IsScaling.digit_or_mem_marks (h : IsScaling digit cs) :
    ∀ c ∈ cs, digit c = true ∨ c ∈ marks := by
  intro c hc
  cases h with
  | absent => cases hc
  | named hs => exact .inr (mem_marks_of_mem_names hs hc).1
  | exponent he hs hd =>
    rcases List.mem_cons.mp hc with rfl | hc
    · rcases he with rfl | rfl <;> exact .inr (by decide)
    · rcases List.mem_append.mp hc with hc | hc
      · exact .inr (hs.mem_marks c hc)
      · exact .inl (hd.all c hc)

theorem Form.digit_or_mem_marks (h : Form digit cs) : ∀ c ∈ cs, digit c = true ∨ c ∈ marks := by
  obtain ⟨sign, number, scale, rfl, hs, hn, hscale⟩ := h
  intro c hc
  rcases List.mem_append.mp hc with hc | hc
  · exact .inr (hs.mem_marks c hc)
  · rcases List.mem_append.mp hc with hc | hc
    · exact hn.digit_or_mem_marks c hc
    · exact hscale.digit_or_mem_marks c hc

section

variable {digit' : Char → Bool}

theorem Digits.imp (h : Digits digit cs) (hd : ∀ c ∈ cs, digit c = true → digit' c = true) :
    Digits digit' cs :=
  ⟨h.ne_nil, fun c hc => hd c hc (h.all c hc)⟩

theorem IsNumber.imp (h : IsNumber digit cs) (hd : ∀ c ∈ cs, digit c = true → digit' c = true) :
    IsNumber digit' cs := by
  cases h with
  | whole hds => exact .whole (hds.imp hd)
  | mixed hds hfs =>
    refine .mixed (hds.imp fun c hc => hd c (List.mem_append_left _ hc)) fun c hc => ?_
    exact hd c (List.mem_append_right _ (List.mem_cons_of_mem _ hc)) (hfs c hc)
  | fraction hfs => exact .fraction (hfs.imp fun c hc => hd c (List.mem_cons_of_mem _ hc))

theorem IsScaling.imp (h : IsScaling digit cs)
    (hd : ∀ c ∈ cs, digit c = true → digit' c = true) : IsScaling digit' cs := by
  cases h with
  | absent => exact .absent
  | named hs => exact .named hs
  | exponent he hs hds =>
    refine .exponent he hs (hds.imp fun c hc => ?_)
    exact hd c (List.mem_cons_of_mem _ (List.mem_append_right _ hc))

/-- Only the digits that a quantity has matter. -/
theorem Form.imp (h : Form digit cs) (hd : ∀ c ∈ cs, digit c = true → digit' c = true) :
    Form digit' cs := by
  obtain ⟨sign, number, scale, rfl, hs, hn, hscale⟩ := h
  refine ⟨sign, number, scale, rfl, hs, hn.imp fun c hc => ?_, hscale.imp fun c hc => ?_⟩
  · exact hd c (List.mem_append_right _ (List.mem_append_left _ hc))
  · exact hd c (List.mem_append_right _ (List.mem_append_right _ hc))

end

theorem isDigitChar_of_isDecimalDigit {c : Char} (h : Text.isDecimalDigit c = true) :
    Text.isDigitChar c = true := by
  rw [Text.isDecimalDigit, Bool.and_eq_true, decide_eq_true_eq, decide_eq_true_eq] at h
  rw [Text.isDigitChar, List.any_eq_true]
  refine ⟨(0x0030, 10), .head _, ?_⟩
  rw [Bool.and_eq_true, decide_eq_true_eq, decide_eq_true_eq]
  omega

/-- With the digits `0` to `9`, these are the quantities that have no digits of another script. -/
theorem form_decimal_iff :
    Form Text.isDecimalDigit cs ↔ Form Text.isDigitChar cs ∧
      ∀ c ∈ cs, Text.isDigitChar c = true → Text.isDecimalDigit c = true := by
  constructor
  · intro h
    refine ⟨h.imp fun c _ hc => isDigitChar_of_isDecimalDigit hc, fun c hc hd => ?_⟩
    refine (h.digit_or_mem_marks c hc).resolve_right fun hm => ?_
    rw [isDigitChar_of_mem_marks hm] at hd
    cases hd
  · rintro ⟨h, hd⟩
    exact h.imp hd

end Quantity

end Pipeline
