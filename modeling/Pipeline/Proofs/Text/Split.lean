import Pipeline.Text.Split

/-!
# Texts that are put together are taken apart again

* `Text.pieces_flatMap`: parts without the separator, joined by it, are the pieces of the whole.
* `Text.pieces_induction`: a text piece by piece; `Text.not_mem_of_mem_pieces`: no piece holds the
  separator.
* `Text.cutAt_append`: a text is cut at its first separator.
-/

namespace Pipeline

namespace Text

variable {sep : Char}

/-! ## Pieces -/

theorem pieces_of_not_mem {cs : List Char} (h : sep ∉ cs) : pieces sep cs = [cs] := by
  induction cs with
  | nil => rfl
  | cons c cs ih =>
    obtain ⟨hc, hcs⟩ := not_or.mp (mt List.mem_cons.mpr h)
    rw [pieces, if_neg (Ne.symm hc), ih hcs]

theorem pieces_append {cs : List Char} (h : sep ∉ cs) (rest : List Char) :
    pieces sep (cs ++ sep :: rest) = cs :: pieces sep rest := by
  induction cs with
  | nil => rw [List.nil_append, pieces, if_pos rfl]
  | cons c cs ih =>
    obtain ⟨hc, hcs⟩ := not_or.mp (mt List.mem_cons.mpr h)
    rw [List.cons_append, pieces, if_neg (Ne.symm hc), ih hcs]

/-- Parts that do not hold the separator are the pieces of what they form together. -/
theorem pieces_flatMap {cs : List Char} {parts : List (List Char)} (h : sep ∉ cs)
    (hs : ∀ part ∈ parts, sep ∉ part) :
    pieces sep (cs ++ parts.flatMap (sep :: ·)) = cs :: parts := by
  induction parts generalizing cs with
  | nil => simpa using pieces_of_not_mem h
  | cons part parts ih =>
    obtain ⟨hp, hps⟩ := List.forall_mem_cons.mp hs
    rw [List.flatMap_cons, List.cons_append, pieces_append h, ih hp hps]

/-- A text without the separator, or one that is cut at the first one. -/
theorem exists_first (sep : Char) (cs : List Char) :
    sep ∉ cs ∨ ∃ first rest, cs = first ++ sep :: rest ∧ sep ∉ first := by
  by_cases h : sep ∈ cs
  · exact .inr (List.eq_append_cons_of_mem h)
  · exact .inl h

/-- Along the pieces of a text: the last one holds no separator, and before each other one there is
a piece that ends at the first separator. -/
theorem pieces_induction (sep : Char) {motive : List Char → Prop} (last : ∀ cs, sep ∉ cs → motive cs)
    (piece : ∀ cs rest, sep ∉ cs → motive rest → motive (cs ++ sep :: rest)) (cs : List Char) :
    motive cs := by
  rcases exists_first sep cs with h | ⟨first, rest, hcs, hfirst⟩
  · exact last cs h
  · have hlt : rest.length < cs.length := by simp [hcs]; omega
    exact hcs ▸ piece first rest hfirst (pieces_induction sep last piece rest)
termination_by cs.length

theorem pieces_ne_nil (cs : List Char) : pieces sep cs ≠ [] := by
  rcases exists_first sep cs with h | ⟨first, rest, rfl, hfirst⟩
  · simp [pieces_of_not_mem h]
  · simp [pieces_append hfirst]

/-- No piece holds the separator. -/
theorem not_mem_of_mem_pieces {cs part : List Char} (h : part ∈ pieces sep cs) : sep ∉ part := by
  induction cs using pieces_induction sep with
  | last cs hcs =>
    rw [pieces_of_not_mem hcs, List.mem_singleton] at h
    exact h ▸ hcs
  | piece cs rest hcs ih =>
    rw [pieces_append hcs, List.mem_cons] at h
    rcases h with rfl | h
    · exact hcs
    · exact ih h

/-! ## Cutting -/

theorem cutAt_of_not_mem {cs : List Char} (h : sep ∉ cs) : cutAt sep cs = (cs, none) := by
  induction cs with
  | nil => rfl
  | cons c cs ih =>
    obtain ⟨hc, hcs⟩ := not_or.mp (mt List.mem_cons.mpr h)
    rw [cutAt, if_neg (Ne.symm hc), ih hcs]

theorem cutAt_append {cs : List Char} (h : sep ∉ cs) (rest : List Char) :
    cutAt sep (cs ++ sep :: rest) = (cs, some rest) := by
  induction cs with
  | nil => rw [List.nil_append, cutAt, if_pos rfl]
  | cons c cs ih =>
    obtain ⟨hc, hcs⟩ := not_or.mp (mt List.mem_cons.mpr h)
    rw [List.cons_append, cutAt, if_neg (Ne.symm hc), ih hcs]

/-- What stands before the first separator holds none. -/
theorem not_mem_cutAt_fst (cs : List Char) : sep ∉ (cutAt sep cs).1 := by
  rcases exists_first sep cs with h | ⟨first, rest, rfl, hfirst⟩
  · rwa [cutAt_of_not_mem h]
  · rwa [cutAt_append hfirst]

theorem cutAt_fst_prefix (cs : List Char) : (cutAt sep cs).1 <+: cs := by
  rcases exists_first sep cs with h | ⟨first, rest, rfl, hfirst⟩
  · simp [cutAt_of_not_mem h]
  · simp [cutAt_append hfirst]

end Text

end Pipeline
