import Mathlib.Data.List.Basic
import Pipeline.Proofs.Text.Number
import Pipeline.Uuid

/-!
# The forms of an identifier

* `Uuid.joinGroups?_eq_some_iff`: groups are joined just if they are the groups of the whole.
* `Uuid.SpelledBy`: the digits of a value, each of either case.
* `Uuid.Form`: the forms in which a value may be written.
* `Uuid.ofChars?_eq_some_iff`: a text is read as a value just if it is a form of it.
-/

namespace Pipeline

namespace Uuid

variable {u : Uuid} {c : Char} {cs ds : List Char} {ns : List Nat}

/-! ## Groups -/

/-- What is joined has the lengths of the groups in sum, and the groups are those of the whole. -/
theorem joinGroups?_eq_some_iff :
    joinGroups? ns cs = some ds ↔ ds.length = ns.sum ∧ cs = hyphenate ns ds := by
  induction ns generalizing cs ds with
  | nil => cases cs <;> cases ds <;> simp [joinGroups?, hyphenate]
  | cons n ns ih =>
    cases ns with
    | nil =>
      simp only [joinGroups?, hyphenate, List.sum_singleton]
      constructor
      · intro h
        split at h
        · obtain rfl := Option.some.inj h
          exact ⟨‹_›, rfl⟩
        · cases h
      · rintro ⟨h, rfl⟩
        rw [if_pos h]
    | cons m ns =>
      simp only [joinGroups?, hyphenate]
      constructor
      · intro h
        split at h
        · rename_i hn
          split at h
          · rename_i rest hrest
            obtain ⟨es, hes, rfl⟩ := Option.map_eq_some_iff.mp h
            obtain ⟨hlen, rfl⟩ := ih.mp hes
            refine ⟨by simp [hn, hlen], ?_⟩
            rw [List.take_left' hn, List.drop_left' hn, ← hrest, List.take_append_drop]
          · cases h
        · cases h
      · rintro ⟨hlen, rfl⟩
        rw [List.sum_cons] at hlen
        have hn : (ds.take n).length = n := List.length_take_of_le (by omega)
        have hrest : joinGroups? (m :: ns) (hyphenate (m :: ns) (ds.drop n)) = some (ds.drop n) :=
          ih.mpr ⟨by rw [List.length_drop]; omega, rfl⟩
        rw [List.take_left' hn, List.drop_left' hn, if_pos hn]
        simp [hrest]

theorem mem_hyphenate (h : c ∈ hyphenate ns cs) : c = '-' ∨ c ∈ cs := by
  induction ns, cs using hyphenate.induct with
  | case1 => exact .inr h
  | case2 => exact .inr h
  | case3 n ns cs hns ih =>
    rw [hyphenate, List.mem_append, List.mem_cons] at h
    · rcases h with h | rfl | h
      · exact .inr (List.mem_of_mem_take h)
      · exact .inl rfl
      · exact (ih h).imp_right List.mem_of_mem_drop
    · exact hns

/-! ## Digits -/

/-- The digits of a value, each of either case. -/
def SpelledBy (u : Uuid) (ds : List Char) : Prop := ds.map Char.toLower = u.digits

namespace SpelledBy

theorem length_eq (h : u.SpelledBy ds) : ds.length = 32 := by
  have hlen := congrArg List.length h
  rwa [List.length_map, digits, Text.length_hexadecimal] at hlen

/-- Nothing but digits is among the digits. -/
theorem not_mem (h : u.SpelledBy ds) (hc : c.toLower ∉ Text.hexDigits) : c ∉ ds := by
  intro hm
  have hl : c.toLower ∈ u.digits := h ▸ List.mem_map_of_mem hm
  exact hc (Text.hexadecimal_subset 32 u.value.toNat hl)

theorem not_mem_groups (h : u.SpelledBy ds) (hc : c.toLower ∉ Text.hexDigits) (hne : c ≠ '-') :
    c ∉ hyphenate groups ds :=
  fun hm => (mem_hyphenate hm).elim hne (h.not_mem hc)

theorem length_groups (h : u.SpelledBy ds) : (hyphenate groups ds).length = 36 := by
  simp [hyphenate, groups, h.length_eq]

end SpelledBy

theorem value_lt (u : Uuid) : u.value.toNat < 16 ^ 32 := u.value.isLt

theorem ofDigits?_eq_some_iff : ofDigits? ds = some u ↔ u.SpelledBy ds := by
  have hread (h : ds.length = 32) : Text.natural? 16 ds = Text.digitsFrom? 16 0 ds := by
    cases ds with
    | nil => cases h
    | cons => rfl
  constructor
  · intro h
    rw [ofDigits?] at h
    split at h
    · rename_i hlen
      obtain ⟨n, hn, rfl⟩ := Option.map_eq_some_iff.mp h
      rw [hread hlen, Text.digitsFrom?_eq_some_iff, hlen] at hn
      have hlt : n < 2 ^ 128 := hn.1
      rw [SpelledBy, hn.2, digits, BitVec.toNat_ofNat, Nat.mod_eq_of_lt hlt]
    · cases h
  · intro h
    have hn : Text.digitsFrom? 16 0 ds = some u.value.toNat := by
      rw [Text.digitsFrom?_eq_some_iff, h.length_eq]
      exact ⟨u.value_lt, h⟩
    rw [ofDigits?, if_pos h.length_eq, hread h.length_eq, hn, Option.map_some, BitVec.ofNat_toNat]
    simp

/-- The groups of the digits, with hyphens between them, are read as the value. -/
theorem ofGroups?_eq_some_iff :
    ofGroups? cs = some u ↔ ∃ ds, u.SpelledBy ds ∧ cs = hyphenate groups ds := by
  simp only [ofGroups?, Option.bind_eq_some_iff, joinGroups?_eq_some_iff, ofDigits?_eq_some_iff]
  constructor
  · rintro ⟨ds, ⟨-, hcs⟩, hds⟩
    exact ⟨ds, hds, hcs⟩
  · rintro ⟨ds, hds, hcs⟩
    exact ⟨ds, ⟨hds.length_eq, hcs⟩, hds⟩

/-! ## Forms -/

/-- The forms of a value: the digits alone, or in groups with hyphens between them, and the groups
also in braces or behind `urn:uuid:`. Letters are of either case. -/
inductive Form (u : Uuid) : List Char → Prop
  | plain {ds : List Char} (h : u.SpelledBy ds) : Form u ds
  | grouped {ds : List Char} (h : u.SpelledBy ds) : Form u (hyphenate groups ds)
  | braced {ds : List Char} (h : u.SpelledBy ds) :
    Form u ('\x7b' :: (hyphenate groups ds ++ ['\x7d']))
  | urn {start ds : List Char} (hs : start.map Char.toLower = urnStart) (h : u.SpelledBy ds) :
    Form u (start ++ hyphenate groups ds)

theorem afterUrn?_eq_some_iff {rest : List Char} :
    afterUrn? cs = some rest ↔ ∃ start, start.map Char.toLower = urnStart ∧ cs = start ++ rest := by
  rw [afterUrn?]
  constructor
  · intro h
    split at h
    · rename_i hs
      obtain rfl := Option.some.inj h
      exact ⟨_, hs, (List.take_append_drop _ cs).symm⟩
    · cases h
  · rintro ⟨start, hs, rfl⟩
    have hlen : start.length = urnStart.length := by rw [← hs, List.length_map]
    rw [List.take_left' hlen, List.drop_left' hlen, if_pos hs]

/-- Where no brace opens, the groups are read, and `urn:uuid:` may stand before them. -/
theorem ofChars?_of_head?_ne (hlen : cs.length ≠ 32) (hc : cs.head? ≠ some '\x7b') :
    ofChars? cs = ofGroups? ((afterUrn? cs).getD cs) := by
  rw [ofChars?.eq_def, if_neg hlen]
  split
  · exact absurd rfl hc
  · cases afterUrn? cs <;> rfl

/-- A text that is read as a value is a form of the value. -/
theorem form_of_ofChars? (h : ofChars? cs = some u) : u.Form cs := by
  by_cases hlen : cs.length = 32
  · rw [ofChars?.eq_def, if_pos hlen] at h
    exact .plain (ofDigits?_eq_some_iff.mp h)
  · by_cases hbrace : cs.head? = some '\x7b'
    · obtain ⟨rest, rfl⟩ := List.head?_eq_some_iff.mp hbrace
      rw [ofChars?, if_neg hlen] at h
      obtain ⟨hlast, hrest⟩ := Option.ite_none_right_eq_some.mp h
      obtain ⟨ds, hds, hgroups⟩ := ofGroups?_eq_some_iff.mp hrest
      rw [← List.dropLast_append_getLast? _ hlast, hgroups]
      exact .braced hds
    · rw [ofChars?_of_head?_ne hlen hbrace] at h
      obtain ⟨ds, hds, hgroups⟩ := ofGroups?_eq_some_iff.mp h
      cases hurn : afterUrn? cs with
      | none =>
        rw [hurn, Option.getD_none] at hgroups
        exact hgroups ▸ .grouped hds
      | some rest =>
        obtain ⟨start, hs, rfl⟩ := afterUrn?_eq_some_iff.mp hurn
        rw [hurn, Option.getD_some] at hgroups
        exact hgroups ▸ .urn hs hds

/-- Every form of a value is read as the value. -/
theorem ofChars?_of_form (h : u.Form cs) : ofChars? cs = some u := by
  cases h with
  | plain h => rw [ofChars?.eq_def, if_pos h.length_eq, ofDigits?_eq_some_iff.mpr h]
  | @grouped ds h =>
    have hbrace : (hyphenate groups ds).head? ≠ some '\x7b' := fun hb =>
      h.not_mem_groups (by decide) (by decide) (List.mem_of_head? hb)
    have hurn : afterUrn? (hyphenate groups ds) = none := by
      refine Option.eq_none_iff_forall_ne_some.mpr fun rest hr => ?_
      obtain ⟨start, hs, hgroups⟩ := afterUrn?_eq_some_iff.mp hr
      obtain ⟨c, hc, hu⟩ : ∃ c ∈ start, c.toLower = 'u' :=
        List.mem_map.mp (hs ▸ List.mem_cons_self)
      have hm : c ∈ hyphenate groups ds := hgroups ▸ List.mem_append_left rest hc
      exact h.not_mem_groups (by rw [hu]; decide) (by rintro rfl; exact absurd hu (by decide)) hm
    rw [ofChars?_of_head?_ne (by rw [h.length_groups]; decide) hbrace, hurn]
    exact ofGroups?_eq_some_iff.mpr ⟨ds, h, rfl⟩
  | @braced ds h =>
    have hlen : ('\x7b' :: (hyphenate groups ds ++ ['\x7d'])).length ≠ 32 := by
      simp [h.length_groups]
    rw [ofChars?, if_neg hlen]
    simpa using ofGroups?_eq_some_iff.mpr ⟨ds, h, rfl⟩
  | @urn start ds hs h =>
    have hlen : (start ++ hyphenate groups ds).length ≠ 32 := by
      rw [List.length_append, h.length_groups]; omega
    have hbrace : (start ++ hyphenate groups ds).head? ≠ some '\x7b' := by
      cases start with
      | nil => exact absurd hs (by decide)
      | cons c start =>
        have hu : c.toLower = 'u' := List.head_eq_of_cons_eq hs
        intro hc
        obtain rfl : c = '\x7b' := Option.some.inj hc
        exact absurd hu (by decide)
    rw [ofChars?_of_head?_ne hlen hbrace, afterUrn?_eq_some_iff.mpr ⟨start, hs, rfl⟩]
    exact ofGroups?_eq_some_iff.mpr ⟨ds, h, rfl⟩

/-- A text is read as a value just if it is a form of the value. -/
theorem ofChars?_eq_some_iff : ofChars? cs = some u ↔ u.Form cs :=
  ⟨form_of_ofChars?, ofChars?_of_form⟩

theorem spelledBy_digits (u : Uuid) : u.SpelledBy u.digits :=
  Text.map_toLower_hexadecimal 32 u.value.toNat

/-- The written form is one of the forms. -/
theorem form_text (u : Uuid) : u.Form u.text.toList := by
  rw [text, String.toList_ofList]
  exact .grouped u.spelledBy_digits

/-- No form holds an underscore, which the marks of ids end with. -/
theorem Form.underscore_not_mem (h : u.Form cs) : '_' ∉ cs := by
  cases h with
  | plain h => exact h.not_mem (by decide)
  | grouped h => exact h.not_mem_groups (by decide) (by decide)
  | braced h =>
    have hg := h.not_mem_groups (c := '_') (by decide) (by decide)
    simpa using hg
  | @urn start ds hs h =>
    have hstart : '_' ∉ start := fun hm => absurd (hs ▸ List.mem_map_of_mem hm) (by decide)
    rw [List.mem_append, not_or]
    exact ⟨hstart, h.not_mem_groups (by decide) (by decide)⟩

end Uuid

end Pipeline
