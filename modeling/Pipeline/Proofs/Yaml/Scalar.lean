import Pipeline.Proofs.Yaml.Block

/-!
# The written forms of a text

* `Yaml.Written`: the forms in which a text is written, each with what a reader relies on.
* `Yaml.written`: an entry of a list has one of them.
* `Yaml.Written.isPrintable`: what is written are characters that may stand in a document.
-/

namespace Pipeline

namespace Yaml

variable {c : Char} {cs : List Char} {b : Option Char} {n : Neighbours} {x : String}

/-! ## The characters of a text and their neighbours -/

theorem map_char_neighbours (b : Option Char) (cs : List Char) :
    (neighbours b cs).map Neighbours.char = cs := by
  induction cs generalizing b with
  | nil => rfl
  | cons c cs ih => rw [neighbours_cons, List.map_cons, ih]

theorem char_mem_of_mem_neighbours (h : n ∈ neighbours b cs) : n.char ∈ cs :=
  map_char_neighbours b cs ▸ List.mem_map_of_mem h

theorem exists_neighbours_of_mem (b : Option Char) (h : c ∈ cs) :
    ∃ n ∈ neighbours b cs, n.char = c := by
  rw [← map_char_neighbours b cs] at h
  exact List.mem_map.mp h

/-- The last character of a text has nothing behind it. -/
theorem exists_neighbours_of_getLast? (b : Option Char) (h : cs.getLast? = some c) :
    ∃ n ∈ neighbours b cs, n.char = c ∧ n.behind = none := by
  induction cs generalizing b with
  | nil => cases h
  | cons d cs ih =>
    rw [neighbours_cons]
    cases cs with
    | nil =>
      obtain rfl : d = c := by simpa using h
      exact ⟨_, List.mem_cons_self, rfl, rfl⟩
    | cons e cs =>
      obtain ⟨n, hn, hc⟩ := ih (some d) (by simpa using h)
      exact ⟨n, .tail _ hn, hc⟩

/-! ## Which forms a text has -/

/-- A text that may be written as it is. -/
theorem isPlain_of_plain (h : (ScalarForm.ofChars cs).plain = true) :
    ∀ n ∈ neighbours none cs, n.IsPlain := by
  simp only [ScalarForm.ofChars, Bool.not_eq_true', Bool.or_eq_false_iff, List.any_eq_false,
    Bool.not_eq_true, Bool.not_eq_false'] at h
  obtain ⟨⟨⟨hspecial, hbreak⟩, -⟩, hindicates⟩ := h
  intro n hn
  exact ⟨(hspecial n hn).1, hbreak _ (char_mem_of_mem_neighbours hn), (hindicates n hn).1,
    (hindicates n hn).2⟩

theorem getLast?_ne_of_isPlain (h : ∀ n ∈ neighbours none cs, n.IsPlain) :
    cs.getLast? ≠ some ' ' := by
  intro hlast
  obtain ⟨n, hn, hc, hbehind⟩ := exists_neighbours_of_getLast? none hlast
  have := (h n hn).outerGap
  simp [Neighbours.isOuterGap, hc, hbehind] at this

/-- A text that may be written in single quotes if it has no line feeds. -/
theorem isQuotable_of_singleQuoted (h : (ScalarForm.ofChars cs).singleQuoted = true)
    (hfeed : '\n' ∉ cs) : ∀ n ∈ neighbours none cs, n.IsQuotable := by
  simp only [ScalarForm.ofChars, Bool.not_eq_true', Bool.or_eq_false_iff, List.any_eq_false,
    Bool.not_eq_true, Bool.not_eq_false'] at h
  obtain ⟨hspecial, hspace⟩ := h
  intro n hn
  exact ⟨(hspecial n hn).1, (hspecial n hn).2, hspace n hn,
    fun hc => hfeed (hc ▸ char_mem_of_mem_neighbours hn)⟩

/-- A text that may be written as a block. -/
theorem isPrintable_of_literal (h : (ScalarForm.ofChars cs).literal = true) :
    cs ≠ [] ∧ ∀ c ∈ cs, isPrintable c = true := by
  simp only [ScalarForm.ofChars, Bool.not_eq_true', Bool.or_eq_false_iff, List.any_eq_false,
    Bool.not_eq_true, Bool.not_eq_false'] at h
  obtain ⟨⟨hspecial, hne⟩, -⟩ := h
  refine ⟨by simpa using hne, fun c hc => ?_⟩
  obtain ⟨n, hn, rfl⟩ := exists_neighbours_of_mem none hc
  exact (hspecial n hn).1

/-- How a text is written that is an entry of a list. -/
def styleOf (x : String) : Style :=
  let form := ScalarForm.ofChars x.toList
  if x.toList.contains '\n' then if form.literal then .literal else .quoted
  else if isAmbiguous x || !form.plain then .quoted
  else .plain

/-- A text and what is written for it: the text itself, the text in quotes or a block. -/
inductive Written (x : String) : Style → List Char → Prop
  | plain (hambiguous : isAmbiguous x = false)
    (hcs : ∀ n ∈ neighbours none x.toList, n.IsPlain) : Written x .plain x.toList
  | singleQuoted (hcs : ∀ n ∈ neighbours none x.toList, n.IsQuotable) :
    Written x .quoted ('\'' :: singleQuotedChars 2 false x.toList ++ ['\''])
  | doubleQuoted : Written x .quoted (doubleQuoted x.toList)
  | literal (hne : x.toList ≠ []) (hprint : ∀ c ∈ x.toList, isPrintable c = true) :
    Written x .literal ('|' :: literalHints x.toList ++ '\n' :: literalChars 2 true x.toList)

/-- A text is written in one of the forms. -/
theorem written (x : String) : Written x (styleOf x) (scalarText false 2 x).toList := by
  have hquotes (hfeed : '\n' ∉ x.toList) : Written x .quoted
      (if (ScalarForm.ofChars x.toList).singleQuoted
        then '\'' :: singleQuotedChars 2 false x.toList ++ ['\''] else doubleQuoted x.toList) := by
    split
    · rename_i hquoted
      exact .singleQuoted (isQuotable_of_singleQuoted hquoted hfeed)
    · exact .doubleQuoted
  simp only [styleOf, scalarText, Bool.false_and, Bool.false_eq_true, if_false, Bool.not_false,
    Bool.and_true, String.toList_ofList]
  split
  · split
    · rename_i hliteral
      obtain ⟨hne, hprint⟩ := isPrintable_of_literal hliteral
      exact .literal hne hprint
    · exact .doubleQuoted
  · rename_i hfeed
    split
    · exact hquotes (by simpa using hfeed)
    · rename_i hplain
      simp only [Bool.or_eq_true, not_or, Bool.not_eq_true, Bool.not_eq_false'] at hplain
      exact .plain hplain.1 (isPlain_of_plain hplain.2)

theorem ne_nil_of_isAmbiguous (h : isAmbiguous x = false) : x.toList ≠ [] := by
  intro hx
  obtain rfl : x = "" := String.toList_eq_nil_iff.mp hx
  exact absurd h (by decide)

theorem Written.ne_nil {style : Style} (h : Written x style cs) : cs ≠ [] := by
  cases h with
  | plain hambiguous => exact ne_nil_of_isAmbiguous hambiguous
  | singleQuoted => exact List.cons_ne_nil _ _
  | doubleQuoted => exact List.cons_ne_nil _ _
  | literal => exact List.cons_ne_nil _ _

/-! ## The characters that are written -/

theorem all_isPrintable_upperHexadecimal (width n : Nat) :
    (upperHexadecimal width n).all isPrintable = true := by
  have table : ∀ d ∈ Text.hexDigits, isPrintable d.toUpper = true :=
    List.all_eq_true.mp (by decide)
  rw [upperHexadecimal, List.all_map, List.all_eq_true]
  exact fun d hd => table d (Text.hexadecimal_subset width n hd)

theorem all_isPrintable_doubleQuotedChar (c : Char) :
    (doubleQuotedChar c).all isPrintable = true := by
  have hescape : isPrintable '\\' = true := rfl
  rw [doubleQuotedChar]
  split
  · rename_i hc
    simp only [Bool.and_eq_true] at hc
    rw [List.all_cons, hc.1.1.1]
    rfl
  · dsimp only
    split
    · rename_i letter hletter
      have table : ∀ e ∈ escapeLetters, isPrintable e.2 = true := by decide
      obtain ⟨l, l', hl, -⟩ := List.lookup_eq_some_iff.mp hletter
      have := table _ (hl ▸ List.mem_append_right l List.mem_cons_self)
      simpa [hescape] using this
    · have hcode {letter : Char} (hletter : isPrintable letter = true) (width : Nat) :
          ('\\' :: letter :: upperHexadecimal width c.toNat).all isPrintable = true := by
        rw [List.all_cons, List.all_cons, hescape, hletter, all_isPrintable_upperHexadecimal]
        rfl
      split
      · exact hcode rfl 2
      · split
        · exact hcode rfl 4
        · exact hcode rfl 8

theorem all_isPrintable_singleQuotedChars (afterBreak : Bool) (h : cs.all isPrintable = true) :
    (singleQuotedChars 2 afterBreak cs).all isPrintable = true := by
  have hindent (afterBreak : Bool) :
      (if afterBreak then spaces 2 else []).all isPrintable = true := by
    cases afterBreak <;> rfl
  induction cs generalizing afterBreak with
  | nil => exact hindent afterBreak
  | cons c cs ih =>
    rw [List.all_cons, Bool.and_eq_true] at h
    rw [singleQuotedChars]
    split
    · rw [List.all_cons, h.1, ih true h.2]
      rfl
    · rw [List.all_append, List.all_append, hindent, ih false h.2]
      split
      · rfl
      · rw [List.all_cons, h.1]
        rfl

theorem all_isPrintable_literalChars (afterBreak : Bool) (h : cs.all isPrintable = true) :
    (literalChars 2 afterBreak cs).all isPrintable = true := by
  induction cs generalizing afterBreak with
  | nil => rfl
  | cons c cs ih =>
    rw [List.all_cons, Bool.and_eq_true] at h
    rw [literalChars]
    split
    · rw [List.all_cons, h.1, ih true h.2]
      rfl
    · rw [List.all_append, List.all_cons, h.1, ih false h.2]
      cases afterBreak <;> rfl

theorem all_isPrintable_literalHints (cs : List Char) :
    (literalHints cs).all isPrintable = true := by
  unfold literalHints
  rw [List.all_append, Bool.and_eq_true]
  constructor
  · cases cs with
    | nil => rfl
    | cons c cs => dsimp only; split <;> rfl
  · cases cs.reverse with
    | nil => rfl
    | cons c rest =>
      dsimp only
      split
      · rfl
      · split <;> rfl

theorem all_isPrintable_of_neighbours (h : ∀ n ∈ neighbours b cs, isPrintable n.char = true) :
    cs.all isPrintable = true := by
  rw [← map_char_neighbours b cs, List.all_map, List.all_eq_true]
  exact h

/-- What is written are characters that may stand in a document. -/
theorem Written.all_isPrintable {style : Style} (h : Written x style cs) :
    cs.all Yaml.isPrintable = true := by
  cases h with
  | plain _ hcs => exact all_isPrintable_of_neighbours fun n hn => (hcs n hn).printable
  | singleQuoted hcs =>
    have hall := all_isPrintable_of_neighbours fun n hn => (hcs n hn).printable
    rw [List.cons_append, List.all_cons, List.all_append, all_isPrintable_singleQuotedChars _ hall]
    rfl
  | doubleQuoted =>
    rw [Yaml.doubleQuoted, List.cons_append, List.all_cons, List.all_append, List.all_flatMap]
    simp [all_isPrintable_doubleQuotedChar, Yaml.isPrintable]
  | literal _ hprint =>
    rw [List.cons_append, List.all_cons, List.all_append, List.all_cons,
      all_isPrintable_literalHints, all_isPrintable_literalChars true (List.all_eq_true.mpr hprint)]
    rfl

end Yaml

end Pipeline
