import Pipeline.Glob.Match

/-!
# Slashes in texts and in their bytes

Patterns are matched against bytes, while what they promise is about texts.

* `Glob.bytes_inj`: texts with the same bytes are the same.
* `Glob.slash_mem_bytes_iff`: the byte of a slash belongs to a slash, and never to a part of another
  character.
* `Glob.bytes_eq_append_slash_iff`: so a text can be cut wherever its bytes can be cut at a slash.
-/

namespace Pipeline

namespace Glob

/-- The bytes of characters. -/
def bytes (cs : List Char) : List UInt8 := cs.flatMap charBytes

@[simp] theorem bytes_nil : bytes [] = [] := rfl

@[simp] theorem bytes_cons (c : Char) (cs : List Char) :
    bytes (c :: cs) = charBytes c ++ bytes cs := rfl

@[simp] theorem bytes_append (cs ds : List Char) : bytes (cs ++ ds) = bytes cs ++ bytes ds :=
  List.flatMap_append

@[simp] theorem charBytes_slash : charBytes '/' = [slash] := by decide

theorem bytes_inj {cs ds : List Char} (h : bytes cs = bytes ds) : cs = ds := by
  have he : (String.ofList cs).toByteArray = (String.ofList ds).toByteArray := by
    rw [String.toByteArray_ofList, String.toByteArray_ofList]
    exact congrArg List.toByteArray h
  simpa using congrArg String.toList (String.toByteArray_inj.mp he)

/-- The bytes of a character beyond the first 128 are beyond them, too. -/
theorem le_of_mem_charBytes {c : Char} {b : UInt8} (hc : ¬ c.val.toNat ≤ 127)
    (hb : b ∈ charBytes c) : 128 ≤ b.toNat := by
  simp only [charBytes, String.utf8EncodeChar, if_neg hc] at hb
  split at hb
  · simp only [List.mem_cons, List.not_mem_nil, or_false] at hb
    rcases hb with rfl | rfl <;> simp only [UInt8.toNat_ofNat'] <;> omega
  · split at hb
    · simp only [List.mem_cons, List.not_mem_nil, or_false] at hb
      rcases hb with rfl | rfl | rfl <;> simp only [UInt8.toNat_ofNat'] <;> omega
    · simp only [List.mem_cons, List.not_mem_nil, or_false] at hb
      rcases hb with rfl | rfl | rfl | rfl <;> simp only [UInt8.toNat_ofNat'] <;> omega

theorem slash_mem_charBytes_iff {c : Char} : slash ∈ charBytes c ↔ c = '/' := by
  constructor
  · intro h
    by_cases hc : c.val.toNat ≤ 127
    · simp only [charBytes, String.utf8EncodeChar, if_pos hc, List.mem_singleton] at h
      have hv : 47 = c.val.toNat % 256 := by simpa [slash] using congrArg UInt8.toNat h
      have hn : c.val.toNat = 47 := by omega
      exact Char.ext (UInt32.toNat_inj.mp hn)
    · exact absurd (le_of_mem_charBytes hc h) (by decide)
  · rintro rfl
    decide

theorem slash_mem_bytes_iff {cs : List Char} : slash ∈ bytes cs ↔ '/' ∈ cs := by
  simp [bytes, slash_mem_charBytes_iff]

/-- A text can be cut where its bytes can be cut at a slash. -/
theorem bytes_eq_append_slash_iff {cs : List Char} {before behind : List UInt8} :
    bytes cs = before ++ slash :: behind ↔
      ∃ ds es, cs = ds ++ '/' :: es ∧ bytes ds = before ∧ bytes es = behind := by
  constructor
  · intro h
    induction cs generalizing before with
    | nil => simp at h
    | cons c cs ih =>
      by_cases hc : c = '/'
      · subst hc
        rw [bytes_cons, charBytes_slash, List.singleton_append] at h
        cases before with
        | nil =>
          obtain ⟨-, rfl⟩ := List.cons.inj h
          exact ⟨[], cs, rfl, rfl, rfl⟩
        | cons b before =>
          obtain ⟨rfl, hcs⟩ := List.cons.inj h
          obtain ⟨ds, es, rfl, hds, hes⟩ := ih hcs
          exact ⟨'/' :: ds, es, rfl, by simp [hds], hes⟩
      · -- The slash of the bytes is none of the bytes of `c`.
        rcases List.append_eq_append_iff.mp h with ⟨rest, rfl, hrest⟩ | ⟨rest, hrest, hslash⟩
        · obtain ⟨ds, es, rfl, hds, hes⟩ := ih hrest
          exact ⟨c :: ds, es, rfl, by rw [bytes_cons, hds], hes⟩
        · cases rest with
          | nil =>
            obtain ⟨ds, es, rfl, hds, hes⟩ := @ih [] hslash.symm
            exact ⟨c :: ds, es, rfl, by simp [hrest, hds], hes⟩
          | cons b rest =>
            obtain ⟨rfl, -⟩ := List.cons.inj hslash
            exact absurd (slash_mem_charBytes_iff.mp (hrest ▸ by simp)) hc
  · rintro ⟨ds, es, rfl, rfl, rfl⟩
    simp

end Glob

end Pipeline
