import Mathlib.Data.Bool.AllAny
import Pipeline.CommitId
import Pipeline.Proofs.Text.Number
import Pipeline.Proofs.Text.Trim

/-!
# How the id of a commit is spelled

* `CommitId.Spells`: digits of either case, with nothing but blank characters around them.
* `CommitId.ofText?_eq_some_iff`: what is read of such a text is its digits in lower case, and no
  other text is read.
* `CommitId.ofText?_text`: the written form of an id is read as the id.
* `CommitId.Alike`: texts that differ in the case of letters and in the blank characters around them
  at most. They are read as the same id (`CommitId.ofText?_eq_of_alike`), and texts that are read as
  the same id are such texts (`CommitId.alike_of_ofText?_eq`).
-/

namespace Pipeline

namespace CommitId

variable {s t : String} {c : CommitId} {d : Char} {ds es : List Char}

/-! ## Digits -/

/-- The hexadecimal digits of both cases. -/
def digits : List Char := "0123456789abcdefABCDEF".toList

theorem isHexDigit_iff : Text.isHexDigit d = true ↔ d ∈ digits := by
  constructor
  · intro h
    have table := Text.of_toNat_lt (p := fun d => !Text.isHexDigit d || digits.contains d)
      (by decide +kernel) (Text.toNat_lt_of_isHexDigit h)
    simpa [h] using table
  · exact List.all_eq_true.mp (by decide : digits.all Text.isHexDigit = true) d

/-- Whether a character is a digit does not depend on its case. -/
theorem toLower_mem_digits_iff : d.toLower ∈ digits ↔ d ∈ digits := by
  by_cases h : d.toNat < 128
  · simpa using Text.of_toNat_lt
      (p := fun d => decide (d.toLower ∈ digits ↔ d ∈ digits)) (by decide +kernel) h
  · rw [Text.toLower_of_le (Nat.le_of_not_lt h)]

/-- What is made of 1 to 64 digits. -/
structure IsDigits (ds : List Char) : Prop where
  ne_nil : ds ≠ []
  length_le : ds.length ≤ 64
  digit : ∀ d ∈ ds, d ∈ digits

theorem readable_iff : readable ds = true ↔ IsDigits ds := by
  simp only [readable, Bool.and_eq_true, List.all_eq_true, isHexDigit_iff, decide_eq_true_eq,
    Bool.not_eq_true', List.isEmpty_eq_false_iff]
  constructor
  · rintro ⟨⟨hne, hlen⟩, hdigit⟩
    exact ⟨hne, hlen, hdigit⟩
  · rintro ⟨hne, hlen, hdigit⟩
    exact ⟨⟨hne, hlen⟩, hdigit⟩

/-! ## Spelling -/

/-- A text spells digits if there are 1 to 64 of them, and nothing but blank characters around
them. -/
structure Spells (s : String) (ds : List Char) : Prop where
  trims : Text.Trims s.toList ds
  isDigits : IsDigits ds

/-- The id that is read of a text has the digits that the text spells, in lower case. -/
theorem ofText?_eq_some_iff :
    ofText? s = some c ↔ ∃ ds, Spells s ds ∧ c.text.toList = ds.map Char.toLower := by
  rw [ofText?]
  constructor
  · intro h
    split at h
    · rename_i hread
      obtain rfl := Option.some.inj h
      exact ⟨_, ⟨Text.trimChars_eq_iff.mp rfl, readable_iff.mp hread⟩, String.toList_ofList⟩
    · cases h
  · rintro ⟨ds, ⟨htrims, hdigits⟩, htext⟩
    obtain rfl := Text.trimChars_eq_iff.mpr htrims
    rw [dif_pos (readable_iff.mpr hdigits)]
    obtain ⟨text, hc⟩ := c
    simp [← htext]

/-- A text is read as an id just if it spells digits. -/
theorem exists_ofText?_iff : (∃ c, ofText? s = some c) ↔ ∃ ds, Spells s ds := by
  constructor
  · rintro ⟨c, hc⟩
    obtain ⟨ds, hds, -⟩ := ofText?_eq_some_iff.mp hc
    exact ⟨ds, hds⟩
  · rintro ⟨ds, htrims, hdigits⟩
    obtain rfl := Text.trimChars_eq_iff.mpr htrims
    exact ⟨_, dif_pos (readable_iff.mpr hdigits)⟩

/-- All digits of an id are zeros just if all that were spelled are. -/
theorem isZero_iff_of_map (hd : IsDigits ds) (h : c.text.toList = ds.map Char.toLower) :
    c.isZero = true ↔ ∀ d ∈ ds, d = '0' := by
  have table : ∀ d ∈ digits, d.toLower = '0' ↔ d = '0' :=
    List.all_iff_forall_prop.mp (by decide)
  simp only [isZero, h, List.all_map, List.all_eq_true, Function.comp_apply, beq_iff_eq]
  exact forall₂_congr fun d hm => table d (hd.digit d hm)

/-- The written form of an id is read as the id. -/
theorem ofText?_text (c : CommitId) : ofText? c.text = some c := by
  have hchars := c.isCommit
  simp only [isCommitText, isCommitDigit, Bool.and_eq_true, List.all_eq_true, isHexDigit_iff,
    beq_iff_eq, Bool.not_eq_true', List.isEmpty_eq_false_iff, decide_eq_true_eq] at hchars
  obtain ⟨⟨hne, hlen⟩, hdigits⟩ := hchars
  have hblank : ∀ d ∈ digits, Text.isBlankChar d = false :=
    List.all_iff_forall_prop.mp (by decide)
  have htrims : Text.Trims c.text.toList c.text.toList :=
    Text.trimChars_eq_iff.mp (Text.trimChars_eq_self fun d hd => hblank d (hdigits d hd).1)
  have hlower : c.text.toList.map Char.toLower = c.text.toList :=
    (List.map_congr_left fun d hd => (hdigits d hd).2).trans (List.map_id _)
  exact ofText?_eq_some_iff.mpr
    ⟨_, ⟨htrims, hne, hlen, fun d hd => (hdigits d hd).1⟩, hlower.symm⟩

/-! ## Spellings of one id -/

/-- Two texts differ in the case of letters and in the blank characters around them at most. -/
def Alike (s t : String) : Prop :=
  ∃ ds es, Text.Trims s.toList ds ∧ Text.Trims t.toList es ∧
    ds.map Char.toLower = es.map Char.toLower

theorem Alike.symm (h : Alike s t) : Alike t s := by
  obtain ⟨ds, es, hs, ht, he⟩ := h
  exact ⟨es, ds, ht, hs, he.symm⟩

theorem IsDigits.of_map_eq (hd : IsDigits ds) (h : ds.map Char.toLower = es.map Char.toLower) :
    IsDigits es := by
  have hlen : ds.length = es.length := by simpa using congrArg List.length h
  refine ⟨?_, hlen ▸ hd.length_le, fun e he => ?_⟩
  · exact List.ne_nil_of_length_pos (hlen ▸ List.length_pos_iff.mpr hd.ne_nil)
  · obtain ⟨d, hm, hde⟩ := List.mem_map.mp (h ▸ List.mem_map_of_mem he : e.toLower ∈ _)
    rw [← toLower_mem_digits_iff, ← hde, toLower_mem_digits_iff]
    exact hd.digit d hm

theorem ofText?_of_alike (h : Alike s t) (hs : ofText? s = some c) : ofText? t = some c := by
  obtain ⟨ds, es, htrims, htrims', he⟩ := h
  obtain ⟨ds', ⟨hds, hdigits⟩, htext⟩ := ofText?_eq_some_iff.mp hs
  obtain rfl : ds = ds' :=
    (Text.trimChars_eq_iff.mpr htrims).symm.trans (Text.trimChars_eq_iff.mpr hds)
  exact ofText?_eq_some_iff.mpr ⟨es, ⟨htrims', hdigits.of_map_eq he⟩, htext.trans he⟩

theorem ofText?_eq_of_alike (h : Alike s t) : ofText? s = ofText? t :=
  Option.ext fun _ => ⟨ofText?_of_alike h, ofText?_of_alike h.symm⟩

theorem alike_of_ofText?_eq (hs : ofText? s = some c) (ht : ofText? t = some c) : Alike s t := by
  obtain ⟨ds, hds, hs⟩ := ofText?_eq_some_iff.mp hs
  obtain ⟨es, hes, ht⟩ := ofText?_eq_some_iff.mp ht
  exact ⟨ds, es, hds.trims, hes.trims, hs.symm.trans ht⟩

end CommitId

end Pipeline
