import Mathlib.Data.List.TakeWhile
import Pipeline.Text.Blank

/-!
# What is left when blanks are cut off

* `Text.Trims`: a text is another one with blank characters around it, and the other one has none at
  its ends.
* `Text.trimChars_eq_iff`: there is one such text only, and it is the one that is left.
-/

namespace Pipeline

namespace Text

variable {p : Char → Bool} {cs ds core : List Char}

/-- What is dropped in front has the property, and the first character that is left has not. -/
theorem dropWhile_eq_iff :
    cs.dropWhile p = ds ↔
      ∃ before, cs = before ++ ds ∧ (∀ c ∈ before, p c = true) ∧
        ∀ c, ds.head? = some c → p c = false := by
  constructor
  · rintro rfl
    refine ⟨cs.takeWhile p, List.takeWhile_append_dropWhile.symm,
      fun c hc => List.mem_takeWhile_imp hc, fun c hc => ?_⟩
    simpa [hc] using List.head?_dropWhile_not p cs
  · rintro ⟨before, rfl, hbefore, hhead⟩
    rw [List.dropWhile_append_of_pos hbefore]
    cases ds with
    | nil => rfl
    | cons d ds => exact List.dropWhile_cons_of_neg (by simp [hhead d rfl])

theorem dropEndWhile_eq_iff :
    dropEndWhile p cs = ds ↔
      ∃ behind, cs = ds ++ behind ∧ (∀ c ∈ behind, p c = true) ∧
        ∀ c, ds.getLast? = some c → p c = false := by
  rw [dropEndWhile, List.reverse_eq_iff, dropWhile_eq_iff]
  constructor
  · rintro ⟨before, hcs, hbefore, hlast⟩
    refine ⟨before.reverse, by rw [← List.reverse_inj, hcs]; simp, by simpa using hbefore, ?_⟩
    simpa using hlast
  · rintro ⟨behind, rfl, hbehind, hlast⟩
    exact ⟨behind.reverse, by simp, by simpa using hbehind, by simpa using hlast⟩

/-- Only the characters at the end are dropped. -/
theorem dropEndWhile_append (hc : ∀ c ∈ cs, p c = false) (hd : ∀ d ∈ ds, p d = true) :
    dropEndWhile p (cs ++ ds) = cs :=
  dropEndWhile_eq_iff.mpr ⟨ds, rfl, hd, fun c hl => hc c (List.mem_of_getLast? hl)⟩

/-- Blank characters stand around `core`, which neither begins nor ends with one. -/
structure Trims (cs core : List Char) : Prop where
  around : ∃ before behind, cs = before ++ core ++ behind ∧
    (∀ c ∈ before, isBlankChar c = true) ∧ ∀ c ∈ behind, isBlankChar c = true
  head : ∀ c, core.head? = some c → isBlankChar c = false
  last : ∀ c, core.getLast? = some c → isBlankChar c = false

theorem trimChars_eq_iff : trimChars cs = core ↔ Trims cs core := by
  rw [trimChars, dropEndWhile_eq_iff]
  constructor
  · rintro ⟨behind, hmid, hbehind, hlast⟩
    obtain ⟨before, hcs, hbefore, hhead⟩ := dropWhile_eq_iff.mp hmid
    refine ⟨⟨before, behind, by rw [hcs, List.append_assoc], hbefore, hbehind⟩, ?_, hlast⟩
    exact fun c hc => hhead c (by rw [List.head?_append, hc, Option.some_or])
  · rintro ⟨⟨before, behind, rfl, hbefore, hbehind⟩, hhead, hlast⟩
    cases core with
    | nil =>
      -- Where nothing is left, all of it is cut off in front.
      refine ⟨[], ?_, by simp, hlast⟩
      simpa using fun c hc => (List.mem_append.mp hc).elim (hbefore c) (hbehind c)
    | cons d core =>
      exact ⟨behind, dropWhile_eq_iff.mpr ⟨before, List.append_assoc .., hbefore, hhead⟩, hbehind,
        hlast⟩

/-- Nothing is left of a text just if all of it is blank. -/
theorem trimChars_eq_nil_iff : trimChars cs = [] ↔ ∀ c ∈ cs, isBlankChar c = true := by
  rw [trimChars_eq_iff]
  constructor
  · rintro ⟨⟨before, behind, rfl, hbefore, hbehind⟩, -, -⟩ c hc
    rw [List.append_nil] at hc
    exact (List.mem_append.mp hc).elim (hbefore c) (hbehind c)
  · intro h
    exact ⟨⟨cs, [], by simp, h, by simp⟩, by simp, by simp⟩

/-- Nothing is cut off a text without blank characters. -/
theorem trimChars_eq_self (h : ∀ c ∈ cs, isBlankChar c = false) : trimChars cs = cs :=
  trimChars_eq_iff.mpr
    ⟨⟨[], [], by simp, by simp, by simp⟩, fun c hc => h c (List.mem_of_head? hc),
      fun c hc => h c (List.mem_of_getLast? hc)⟩

end Text

end Pipeline
