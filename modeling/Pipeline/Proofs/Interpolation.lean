import Pipeline.Interpolation

/-!
# Interpolated texts are read as they are written

* `Canonical.reads`: the written form of a canonical list is read as the list, whatever literal
  text was read before it. There is one rule for each thing that is written: a character of a
  literal (`Reads.escaped`), a literal (`Reads.literal`), and a variable (`Reads.variable`).
* `canonical_of_scan`: what is read is canonical, wherever the reader stood when it began.
* `parse_render_iff`: reading gives exactly the canonical lists, and each of them from its
  written form.
-/

namespace Pipeline

namespace Interpolation

variable {read cs : List Char} {segments : List Segment}

/-! ## Canonical lists -/

/-- The list is empty or begins with a variable. Literal text can be put before it without
meeting other literal text. -/
def NoLiteralFirst (segments : List Segment) : Prop :=
  ∀ text, segments.head? ≠ some (.literal text)

theorem noLiteralFirst_nil : NoLiteralFirst [] := by simp [NoLiteralFirst]

theorem noLiteralFirst_variable {name : String} : NoLiteralFirst (.variable name :: segments) := by
  simp [NoLiteralFirst]

theorem canonical_literal_cons {text : String} :
    Canonical (.literal text :: segments) ↔
      text ≠ "" ∧ NoLiteralFirst segments ∧ Canonical segments := by
  cases segments with
  | nil => simp [Canonical, NoLiteralFirst]
  | cons s rest => cases s <;> simp [Canonical, NoLiteralFirst]

theorem flush_reverse {text : String} (h : text ≠ "") :
    flush text.toList.reverse = [.literal text] := by
  have hne : text.toList ≠ [] := mt String.toList_eq_nil_iff.mp h
  simp [flush, hne]

/-- Literal text that was read may stand before what does not begin with any. -/
theorem Canonical.flush_append (h : Canonical segments) (hf : NoLiteralFirst segments) :
    Canonical (flush read ++ segments) := by
  cases read with
  | nil => exact h
  | cons c read =>
    have hne : String.ofList (c :: read).reverse ≠ "" := by simp
    exact canonical_literal_cons.mpr ⟨hne, hf, h⟩

/-! ## Written forms are read -/

/-- The characters are read as the segments. It does not matter where they stand, since only
errors tell positions. -/
def Reads (mode : Mode) (cs : List Char) (segments : List Segment) : Prop :=
  ∀ position, scan position mode cs = .ok segments

theorem Reads.escaped {c : Char} (h : Reads (.text (c :: read)) cs segments) :
    Reads (.text read) (escaped c ++ cs) segments := by
  intro position
  by_cases hc : c = '@' ∨ c = '\\'
  · simp [Interpolation.escaped, scan, hc, h _]
  · obtain ⟨hat, hesc⟩ := not_or.mp hc
    simp [Interpolation.escaped, scan, hat, hesc, h _]

theorem Reads.literal (text : List Char) (h : Reads (.text (text.reverse ++ read)) cs segments) :
    Reads (.text read) (text.flatMap Interpolation.escaped ++ cs) segments := by
  induction text generalizing read with
  | nil => exact h
  | cons c text ih =>
    rw [List.reverse_cons, List.append_assoc, List.singleton_append] at h
    rw [List.flatMap_cons, List.append_assoc]
    exact (ih h).escaped

/-- What stands between the marks of a variable is its name, however much of it was read. -/
theorem Reads.name {start : Nat} {before name : List Char} (hat : '@' ∉ name)
    (hline : '\n' ∉ name) (hblank : (name.reverse ++ read).all Text.isBlankChar = false)
    (h : Reads (.text []) cs segments) :
    Reads (.name start before read) (name ++ '@' :: cs)
      (flush before ++ .variable (String.ofList (read.reverse ++ name)) :: segments) := by
  intro position
  induction name generalizing read position with
  | nil =>
    rw [List.reverse_nil, List.nil_append] at hblank
    simp [scan, hblank, h _]
  | cons c name ih =>
    obtain ⟨hc, hat⟩ := not_or.mp (mt List.mem_cons.mpr hat)
    obtain ⟨hl, hline⟩ := not_or.mp (mt List.mem_cons.mpr hline)
    rw [List.reverse_cons, List.append_assoc, List.singleton_append] at hblank
    have hrest := ih hat hline hblank (position + c.utf8Size)
    simpa [scan, Ne.symm hc, Ne.symm hl] using hrest

theorem Reads.variable {name : String} (hn : IsName name) (h : Reads (.text []) cs segments) :
    Reads (.text read) (Segment.render (.variable name) ++ cs)
      (flush read ++ .variable name :: segments) := by
  intro position
  obtain ⟨hat, hline, hblank⟩ := hn
  have hname : Reads (.name position read []) (name.toList ++ '@' :: cs)
      (flush read ++ .variable (String.ofList ([].reverse ++ name.toList)) :: segments) :=
    Reads.name hat hline (by simpa [Text.isBlank] using hblank) h
  simpa [Segment.render, scan] using hname (position + '@'.utf8Size)

/-- The written form of a canonical list is read as the list. Literal text that was read before
it becomes a segment of its own, unless the list goes on with a literal. -/
theorem Canonical.reads (h : Canonical segments) (hf : read = [] ∨ NoLiteralFirst segments) :
    Reads (.text read) (segments.flatMap Segment.render) (flush read ++ segments) := by
  induction segments generalizing read with
  | nil =>
    rw [List.append_nil]
    exact fun _ => rfl
  | cons s rest ih =>
    rw [List.flatMap_cons]
    cases s with
    | literal text =>
      obtain rfl : read = [] := hf.resolve_right fun hn => hn text rfl
      obtain ⟨hne, hrest, hc⟩ := canonical_literal_cons.mp h
      have hread : Reads (.text text.toList.reverse) (rest.flatMap Segment.render)
          (flush text.toList.reverse ++ rest) := ih hc (.inr hrest)
      rw [flush_reverse hne] at hread
      exact Reads.literal text.toList (by rwa [List.append_nil])
    | «variable» name =>
      obtain ⟨hn, hc⟩ := h
      exact Reads.variable hn (ih hc (.inl rfl))

/-! ## What is read -/

/-- A name that is being read holds neither mark nor line break. -/
def Mode.Sound : Mode → Prop
  | .text _ => True
  | .escape _ => True
  | .name _ _ read => '@' ∉ read ∧ '\n' ∉ read

/-- A name goes on with the next character, or the variable ends at it and is followed by what is
read behind it. -/
theorem of_scan_name {position start : Nat} {before : List Char} {c : Char}
    (h : scan position (.name start before read) (c :: cs) = .ok segments) :
    (c ≠ '@' ∧ c ≠ '\n' ∧
      scan (position + c.utf8Size) (.name start before (c :: read)) cs = .ok segments) ∨
    c = '@' ∧ read.all Text.isBlankChar = false ∧
      ∃ rest, scan (position + c.utf8Size) (.text []) cs = .ok rest ∧
        segments = flush before ++ .variable (String.ofList read.reverse) :: rest := by
  simp only [scan] at h
  split at h
  · cases h
  · rename_i hline
    split at h
    · rename_i hat
      split at h
      · cases h
      · rename_i hblank
        split at h
        · rename_i rest hrest
          cases h
          exact .inr ⟨hat, Bool.eq_false_iff.mpr hblank, rest, hrest, rfl⟩
        · cases h
    · rename_i hat
      exact .inl ⟨hat, hline, h⟩

/-- What is read is canonical. The name of a variable is read character by character, so the
induction carries what the name does not hold so far. -/
theorem canonical_of_scan {position : Nat} {mode : Mode} (hm : mode.Sound)
    (h : scan position mode cs = .ok segments) : Canonical segments := by
  induction cs generalizing position mode segments with
  | nil =>
    cases mode with
    | text read =>
      cases h
      have hc : Canonical (flush read ++ []) := Canonical.flush_append trivial noLiteralFirst_nil
      rwa [List.append_nil] at hc
    | escape read => cases h
    | name start before read => cases h
  | cons c cs ih =>
    cases mode with
    | text read =>
      simp only [scan] at h
      split at h
      · exact ih (show (Mode.escape read).Sound from trivial) h
      · split at h
        · have hm : (Mode.name position read []).Sound := ⟨List.not_mem_nil, List.not_mem_nil⟩
          exact ih hm h
        · exact ih (show (Mode.text (c :: read)).Sound from trivial) h
    | escape read =>
      simp only [scan] at h
      split at h
      · exact ih (show (Mode.text (c :: read)).Sound from trivial) h
      · exact ih (show (Mode.text (c :: '\\' :: read)).Sound from trivial) h
    | name start before read =>
      obtain ⟨hat, hline⟩ := hm
      rcases of_scan_name h with ⟨hc, hl, h⟩ | ⟨-, hblank, rest, hrest, rfl⟩
      · have hm : (Mode.name start before (c :: read)).Sound :=
          ⟨by simp [Ne.symm hc, hat], by simp [Ne.symm hl, hline]⟩
        exact ih hm h
      · have hn : IsName (String.ofList read.reverse) := by
          simp [IsName, hat, hline, Text.isBlank, hblank]
        have hc : Canonical (.variable (String.ofList read.reverse) :: rest) :=
          ⟨hn, ih (show (Mode.text []).Sound from trivial) hrest⟩
        exact hc.flush_append noLiteralFirst_variable

/-- The canonical lists are those that are read from their written form, and those that are read
from any text. -/
theorem parse_render_iff (segments : List Segment) :
    (parse (render segments) = .ok segments ↔ Canonical segments) ∧
    ((∃ s, parse s = .ok segments) ↔ Canonical segments) := by
  have hread : Canonical segments → parse (render segments) = .ok segments := by
    intro h
    have hread : Reads (.text []) (segments.flatMap Segment.render) segments := h.reads (.inl rfl)
    rw [parse, render, String.toList_ofList, hread]
  have hcanonical : ∀ s, parse s = .ok segments → Canonical segments :=
    fun _ => canonical_of_scan (show (Mode.text []).Sound from trivial)
  exact ⟨⟨hcanonical _, hread⟩, ⟨fun ⟨s, hs⟩ => hcanonical s hs, fun h => ⟨_, hread h⟩⟩⟩

end Interpolation

end Pipeline
