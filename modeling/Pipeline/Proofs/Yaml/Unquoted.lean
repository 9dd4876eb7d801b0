import Pipeline.Proofs.Yaml.Quoted

/-!
# Texts without quotes

* `Yaml.plainFrom?_plain`: a text that is written as it is, with a line feed behind it, is read as
  the text.
-/

namespace Pipeline

namespace Yaml

variable {cs next : List Char}

/-- A character that may stand in a text without quotes. -/
structure Neighbours.IsPlain (n : Neighbours) : Prop where
  printable : isPrintable n.char = true
  not_break : isBreak n.char = false
  indicates : n.indicates = false
  outerGap : n.isOuterGap = false

/-- What stands behind an entry of a list: nothing, or the hyphen of the next one. -/
def IsNext (next : List Char) : Prop := next = [] ∨ ∃ more, next = '-' :: more

/-- A colon that indicates nothing is followed by more of the text. -/
theorem endsPlain_of_isPlain {b : Option Char} {c : Char}
    (h : Neighbours.IsPlain ⟨b, c, cs.head?⟩) (rest : List Char) :
    endsPlain false (c :: (cs ++ rest)) = false := by
  by_cases hc : c = ':'
  · subst hc
    have hsep : separates cs.head? = false := by
      have := h.indicates
      cases b <;> simp_all [Neighbours.indicates]
    cases cs with
    | nil => cases hsep
    | cons d cs => simpa [endsPlain, endsWord, separates] using hsep
  · simp [endsPlain, hc]

theorem isStrayColon_false (cs : List Char) : isStrayColon false cs = false := by
  unfold isStrayColon
  split <;> rfl

theorem plainFrom?_blank {before blanks rest : List Char} {column : Nat} :
    plainFrom? false 1 ⟨before, .blanks blanks, column⟩ (' ' :: rest) =
      plainFrom? false 1 ⟨before, .blanks (' ' :: blanks), column + 1⟩ rest := by
  rw [plainFrom?, if_pos (by decide), if_neg (by simp [Gap.isBroken])]
  rfl

theorem plainFrom?_text {c : Char} {before blanks rest : List Char} {column : Nat}
    (hblank : isBlank c = false) (hbreak : isBreak c = false) (hcolumn : 0 < column)
    (hcomment : blanks ≠ [] → c ≠ '#') (hends : endsPlain false (c :: rest) = false) :
    plainFrom? false 1 ⟨before, .blanks blanks, column⟩ (c :: rest) =
      plainFrom? false 1 ⟨c :: (blanks ++ before), .blanks [], column + 1⟩ rest := by
  have hgap : (!(Gap.blanks blanks).isNone && (!false && column < 1 ||
      column == 0 && isAnyDocumentMark (c :: rest) || c == '#')) = false := by
    cases blanks with
    | nil => rfl
    | cons d ds =>
      have hzero : column ≠ 0 := Nat.ne_of_gt hcolumn
      simpa [Gap.isNone, hzero] using hcomment (List.cons_ne_nil d ds)
  rw [plainFrom?, if_neg (by simp [hblank]), if_neg (by simp [hbreak]),
    if_neg (Bool.not_eq_true _ ▸ hgap), if_neg (by simp [isStrayColon_false]),
    if_neg (by simp [hends])]
  rfl

/-- A text that is written as it is is read up to its end, where the blanks passed last are none. -/
theorem plainFrom?_append {b : Option Char} {before blanks : List Char} {column : Nat}
    (hblanks : blanks ≠ [] → b = some ' ') (hcolumn : 0 < column)
    (hcs : ∀ n ∈ neighbours b cs, n.IsPlain) (hlast : cs.getLast?.or b ≠ some ' ')
    (hnext : IsNext next) :
    plainFrom? false 1 ⟨before, .blanks blanks, column⟩ (cs ++ '\n' :: next) =
      some (⟨cs.reverse ++ (blanks ++ before), .broken ['\n'] [], 0⟩, next) := by
  induction cs generalizing b before blanks column with
  | nil =>
    obtain rfl : blanks = [] := by_contra fun h => hlast (hblanks h)
    rw [List.nil_append, plainFrom?, if_neg (by decide), if_pos (by decide)]
    rcases hnext with rfl | ⟨more, rfl⟩
    · rfl
    · simp [plainFrom?, isBlank, isBreak, Gap.addBreak, Gap.isNone]
  | cons c cs ih =>
    rw [neighbours_cons] at hcs
    obtain ⟨hc, hcs⟩ := List.forall_mem_cons.mp hcs
    have hlast : cs.getLast?.or (some c) ≠ some ' ' := by
      cases cs <;> simpa [List.getLast?_cons] using hlast
    rw [List.cons_append]
    by_cases hblank : c = ' '
    · subst hblank
      rw [plainFrom?_blank, ih (fun _ => rfl) (Nat.succ_pos column) hcs hlast]
      simp
    · have hcomment (h : blanks ≠ []) : c ≠ '#' := by
        rintro rfl
        have := hc.indicates
        simp [Neighbours.indicates, hblanks h, isBlank] at this
      rw [plainFrom?_text (isBlank_of_isPrintable hc.printable hblank) hc.not_break hcolumn hcomment
          (endsPlain_of_isPlain hc _),
        ih (fun h => absurd rfl h) (Nat.succ_pos column) hcs hlast]
      simp

/-- A text that is written as it is, with a line feed behind it, is read as the text. -/
theorem plainFrom?_plain (hcs : ∀ n ∈ neighbours none cs, n.IsPlain)
    (hlast : cs.getLast? ≠ some ' ') (hnext : IsNext next) :
    plainFrom? false 1 ⟨[], Gap.none, 2⟩ (cs ++ '\n' :: next) =
      some (⟨cs.reverse, .broken ['\n'] [], 0⟩, next) := by
  have h : plainFrom? false 1 ⟨[], Gap.none, 2⟩ (cs ++ '\n' :: next) =
      some (⟨cs.reverse ++ ([] ++ []), .broken ['\n'] [], 0⟩, next) :=
    plainFrom?_append (fun h => absurd rfl h) (Nat.succ_pos 1) hcs (by simpa using hlast) hnext
  rwa [List.append_nil, List.append_nil] at h

end Yaml

end Pipeline
