import Mathlib.Data.List.Infix
import Pipeline.Glob

/-!
# How plain patterns are read

Most patterns have no sets, no choices and no escapes. Of these, each character is read as a part of
the pattern of its own, unless two stars follow each other.

* `Glob.readFrom_cons`: one character further.
* `Glob.ofText_of_isSimple`: a pattern without two stars in a row is read character by character.
* `Glob.readFrom_literal`: so is what stands for itself, whatever follows behind a slash.
-/

namespace Pipeline

namespace Glob

/-- The characters that begin or end a set or a choice, and the one that takes the meaning from
another one. -/
def marks : List Char := ['[', '\x7b', '\x7d', '\\']

/-- A written pattern with no sets, choices and escapes, in which `*` and `?` stand alone. -/
def IsSimple (cs : List Char) : Prop := (∀ c ∈ cs, c ∉ marks) ∧ ¬ ['*', '*'] <:+: cs

/-- A written pattern all of whose characters stand for themselves. -/
def IsLiteral (cs : List Char) : Prop := ∀ c ∈ cs, c ∉ '*' :: '?' :: marks

-- The quantifiers are decided along the text, not over all characters.
instance (cs : List Char) : Decidable (IsSimple cs) :=
  @instDecidableAnd _ _ (List.decidableBAll (· ∉ marks) cs) inferInstance

instance (cs : List Char) : Decidable (IsLiteral cs) :=
  List.decidableBAll (· ∉ '*' :: '?' :: marks) cs

/-- The part of a pattern that a character is by itself. -/
def Token.ofChar (c : Char) : Token :=
  if c = '*' then .star else if c = '?' then .any else .char c

variable {parts : Pattern} {previous : Option Char} {c : Char} {cs rest : List Char}

theorem IsSimple.of_cons (h : IsSimple (c :: cs)) : IsSimple cs := by
  refine ⟨fun d hd => h.1 d (List.mem_cons_of_mem _ hd), fun hs => h.2 ?_⟩
  exact hs.trans (List.suffix_cons c cs).isInfix

theorem IsLiteral.of_cons (h : IsLiteral (c :: cs)) : IsLiteral cs :=
  fun d hd => h d (List.mem_cons_of_mem _ hd)

theorem IsLiteral.isSimple (h : IsLiteral cs) : IsSimple cs := by
  refine ⟨fun c hc hm => h c hc (by simp [hm]), fun hs => ?_⟩
  exact h '*' (hs.subset List.mem_cons_self) List.mem_cons_self

theorem Token.ofChar_ne_leading : ofChar c ≠ .leading := by
  unfold ofChar
  split
  · simp
  · split <;> simp

theorem Token.ofChar_of_isLiteral (h : IsLiteral cs) : cs.map ofChar = cs.map .char := by
  refine List.map_congr_left fun c hc => ?_
  have hm := h c hc
  simp only [List.mem_cons, not_or] at hm
  rw [ofChar, if_neg hm.1, if_neg hm.2.1]

/-- Outside of choices, a character is read as a part of its own, unless it is a star before another
one. -/
theorem readFrom_cons (hc : c ∉ marks) (hs : c = '*' → cs.head? ≠ some '*') :
    readFrom ⟨parts, []⟩ previous .outside (c :: cs) =
      readFrom ⟨.ofChar c :: parts, []⟩ (some c) .outside cs := by
  simp only [marks, List.mem_cons, List.not_mem_nil, or_false, not_or] at hc
  obtain ⟨hclass, hopen, hclose, hescape⟩ := hc
  rw [readFrom]
  · by_cases hstar : c = '*'
    · simp [hstar, Token.ofChar, ReadState.push]
    · by_cases hany : c = '?'
      · simp [hany, Token.ofChar, ReadState.push]
      · by_cases hcomma : c = ','
        · simp [hcomma, Token.ofChar, ReadState.push, ReadState.comma]
        · simp [*, Token.ofChar, ReadState.push]
  · rintro ds rfl rfl
    exact hs rfl rfl
  · rintro ds rfl rfl
    exact hs rfl rfl

theorem readFrom_of_isSimple (h : IsSimple cs) :
    readFrom ⟨parts, []⟩ previous .outside cs = .ok (parts.reverse ++ cs.map .ofChar) := by
  induction cs generalizing parts previous with
  | nil => simp [readFrom]
  | cons c cs ih =>
    have hs : c = '*' → cs.head? ≠ some '*' := by
      rintro rfl hd
      obtain ⟨ds, rfl⟩ := List.head?_eq_some_iff.mp hd
      exact h.2 ⟨[], ds, rfl⟩
    rw [readFrom_cons (h.1 c List.mem_cons_self) hs, ih h.of_cons]
    simp

/-- A pattern without two stars in a row is read character by character. -/
theorem ofText_of_isSimple {s : String} (h : IsSimple s.toList) :
    ofText s = .ok (s.toList.map .ofChar) := by
  rw [ofText, ReadState.start, readFrom_of_isSimple h]
  rfl

theorem readFrom_of_isLiteral (h : IsLiteral cs) :
    readFrom ⟨parts, []⟩ previous .outside cs = .ok (parts.reverse ++ cs.map .char) := by
  rw [readFrom_of_isSimple h.isSimple, Token.ofChar_of_isLiteral h]

/-- What stands for itself is read up to the slash behind it. -/
theorem readFrom_literal (h : IsLiteral cs) :
    readFrom ⟨parts, []⟩ previous .outside (cs ++ '/' :: rest) =
      readFrom ⟨.char '/' :: ((cs.map .char).reverse ++ parts), []⟩ (some '/') .outside rest := by
  induction cs generalizing parts previous with
  | nil =>
    rw [List.nil_append, readFrom_cons (by decide) (absurd · (by decide))]
    rfl
  | cons c cs ih =>
    have hm := h c List.mem_cons_self
    simp only [List.mem_cons, not_or] at hm
    rw [List.cons_append, readFrom_cons hm.2.2 (absurd · hm.1), ih h.of_cons, Token.ofChar,
      if_neg hm.1, if_neg hm.2.1]
    simp

end Glob

end Pipeline
