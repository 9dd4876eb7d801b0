import Pipeline.Text.Blank

/-!
# Words of a text

* `Text.Spaced`: a text consists of some words, with blank characters between and around them.
* `Text.wordsOf_eq_iff`: there is one way only to take a text apart like this.
* `Text.wordsOf_joinWords`: so the words are kept when they are joined by single spaces.
* `Text.joinWords_eq_iff`: texts that are equal when they are joined anew have the same words.
-/

namespace Pipeline

namespace Text

/-- A word has characters, and none of them is blank. -/
structure IsWord (w : List Char) : Prop where
  ne_nil : w ≠ []
  not_blank : ∀ c ∈ w, isBlankChar c = false

/-- A text consists of words, with a blank character or more after each one but the last. Blank
characters may also stand at the two ends. -/
inductive Spaced : List (List Char) → List Char → Prop
  | nil : Spaced [] []
  | blank {c : Char} {ws : List (List Char)} {cs : List Char} (hc : isBlankChar c = true)
      (h : Spaced ws cs) : Spaced ws (c :: cs)
  | last {w : List Char} (hw : IsWord w) : Spaced [w] w
  | word {w : List Char} {c : Char} {ws : List (List Char)} {cs : List Char} (hw : IsWord w)
      (hc : isBlankChar c = true) (h : Spaced ws cs) : Spaced (w :: ws) (w ++ c :: cs)

variable {c d : Char} {w cs : List Char} {ws : List (List Char)}

namespace IsWord

theorem singleton (hc : isBlankChar c = false) : IsWord [c] :=
  ⟨List.cons_ne_nil _ _, by simpa using hc⟩

theorem cons (hc : isBlankChar c = false) (hw : IsWord w) : IsWord (c :: w) :=
  ⟨List.cons_ne_nil _ _, List.forall_mem_cons.mpr ⟨hc, hw.not_blank⟩⟩

end IsWord

/-! ## The words of a text are such words -/

namespace Spaced

theorem isWord (h : Spaced ws cs) : ∀ w ∈ ws, IsWord w := by
  induction h with
  | nil => simp
  | blank _ _ ih => exact ih
  | last hw => simpa using hw
  | word hw _ _ ih => exact List.forall_mem_cons.mpr ⟨hw, ih⟩

/-- A text that begins with a blank character consists of the words of the rest. -/
theorem of_blank (hc : isBlankChar c = true) (h : Spaced ws (c :: cs)) : Spaced ws cs := by
  generalize hl : c :: cs = l at h
  cases h with
  | nil => cases hl
  | blank _ h =>
    obtain ⟨-, rfl⟩ := List.cons.inj hl
    exact h
  | last hw => exact absurd hc (by simp [hw.not_blank c (hl ▸ List.mem_cons_self)])
  | @word w _ _ _ hw _ _ =>
    obtain ⟨d, w, rfl⟩ := List.exists_cons_of_ne_nil hw.ne_nil
    obtain ⟨rfl, -⟩ := List.cons.inj hl
    exact absurd hc (by simp [hw.not_blank c List.mem_cons_self])

/-- A text that begins with another character begins with a word, and a further such character in
front of it becomes part of the word. -/
theorem cons_word (hc : isBlankChar c = false) (hd : isBlankChar d = false)
    (h : Spaced ws (d :: cs)) :
    ∃ w rest, ws = w :: rest ∧ Spaced ((c :: w) :: rest) (c :: d :: cs) := by
  generalize hl : d :: cs = l at h
  cases h with
  | nil => cases hl
  | blank hb =>
    obtain ⟨rfl, -⟩ := List.cons.inj hl
    exact absurd hb (by simp [hd])
  | last hw => exact ⟨_, _, rfl, .last (hw.cons hc)⟩
  | word hw hb h => exact ⟨_, _, rfl, .word (hw.cons hc) hb h⟩

end Spaced

theorem spaced_wordsOf (cs : List Char) : Spaced (wordsOf cs) cs := by
  induction cs using wordsOf.induct with
  | case1 => exact .nil
  | case2 c hc =>
    rw [wordsOf, if_pos hc]
    exact .blank hc .nil
  | case3 c hc =>
    rw [wordsOf, if_neg hc]
    exact .last (.singleton (by simpa using hc))
  | case4 c d cs hc ih =>
    rw [wordsOf, if_pos hc]
    exact .blank hc ih
  | case5 c d cs hc hd ih =>
    rw [wordsOf, if_neg hc, if_pos hd]
    exact .word (.singleton (by simpa using hc)) hd (ih.of_blank hd)
  | case6 c d cs hc hd he ih =>
    obtain ⟨w, rest, hw, -⟩ := ih.cons_word (by simpa using hc) (by simpa using hd)
    exact absurd (he.symm.trans hw) (List.cons_ne_nil w rest).symm
  | case7 c d cs hc hd w ws he ih =>
    obtain ⟨w', ws', hw, h⟩ := ih.cons_word (by simpa using hc) (by simpa using hd)
    obtain ⟨rfl, rfl⟩ := List.cons.inj (he.symm.trans hw)
    rwa [wordsOf, if_neg hc, if_neg hd, he]

/-! ## There are no other ones -/

theorem wordsOf_cons_blank (hc : isBlankChar c = true) (cs : List Char) :
    wordsOf (c :: cs) = wordsOf cs := by
  cases cs <;> simp [wordsOf, hc]

theorem wordsOf_word (hw : IsWord w) : wordsOf w = [w] := by
  induction w with
  | nil => exact absurd rfl hw.ne_nil
  | cons c w ih =>
    obtain ⟨hc, hbs⟩ := List.forall_mem_cons.mp hw.not_blank
    cases w with
    | nil => simp [wordsOf, hc]
    | cons d w => simp [wordsOf, hc, hbs d List.mem_cons_self, ih ⟨List.cons_ne_nil _ _, hbs⟩]

theorem wordsOf_word_append (hw : IsWord w) (hc : isBlankChar c = true) (cs : List Char) :
    wordsOf (w ++ c :: cs) = w :: wordsOf cs := by
  induction w with
  | nil => exact absurd rfl hw.ne_nil
  | cons d w ih =>
    obtain ⟨hd, hbs⟩ := List.forall_mem_cons.mp hw.not_blank
    cases w with
    | nil => simp [wordsOf, hd, hc, wordsOf_cons_blank hc]
    | cons e w =>
      have ih := ih ⟨List.cons_ne_nil _ _, hbs⟩
      rw [List.cons_append] at ih
      simp [wordsOf, hd, hbs e List.mem_cons_self, ih]

/-- The words of a text are the only ones that it consists of. -/
theorem wordsOf_eq_iff : wordsOf cs = ws ↔ Spaced ws cs := by
  constructor
  · rintro rfl
    exact spaced_wordsOf cs
  · intro h
    induction h with
    | nil => rw [wordsOf]
    | blank hc _ ih => rw [wordsOf_cons_blank hc, ih]
    | last hw => exact wordsOf_word hw
    | word hw hc _ ih => rw [wordsOf_word_append hw hc, ih]

/-! ## Joining -/

/-- Words that are joined by single spaces make up a text that consists of them. -/
theorem spaced_intercalate (hws : ∀ w ∈ ws, IsWord w) : Spaced ws ([' '].intercalate ws) := by
  induction ws with
  | nil => exact .nil
  | cons w ws ih =>
    obtain ⟨hw, hws⟩ := List.forall_mem_cons.mp hws
    cases ws with
    | nil => simpa using Spaced.last hw
    | cons w' ws =>
      rw [List.intercalate_cons_cons]
      simpa using Spaced.word hw (by decide) (ih hws)

theorem toList_joinWords (s : String) :
    (joinWords s).toList = [' '].intercalate (wordsOf s.toList) := by
  simp [joinWords, words, Function.comp_def]

theorem wordsOf_joinWords (s : String) : wordsOf (joinWords s).toList = wordsOf s.toList := by
  rw [toList_joinWords, wordsOf_eq_iff]
  exact spaced_intercalate (spaced_wordsOf _).isWord

theorem joinWords_eq_iff {s t : String} :
    joinWords s = joinWords t ↔ wordsOf s.toList = wordsOf t.toList := by
  constructor
  · intro h
    rw [← wordsOf_joinWords s, h, wordsOf_joinWords t]
  · intro h
    rw [joinWords, words, h, joinWords, words]

end Text

end Pipeline
