import Pipeline.Proofs.Text.Number
import Pipeline.Yaml.Token.Scalar
import Pipeline.Yaml.Writer

/-!
# Texts in quotes

* `Yaml.quoted?_doubleQuoted`: a text in double quotes is read as the text.
* `Yaml.quoted?_singleQuoted`: so is one in single quotes, if its line breaks are no line feeds and
  no space stands next to one.

A reader keeps the blanks or line breaks that it has passed last apart from the text before them.
What both amount to is the text so far (`Yaml.Holds`, `Yaml.Reads`).
-/

namespace Pipeline

namespace Yaml

variable {c quote : Char} {cs rest before : List Char} {gap : Gap} {atLineStart : Bool}

/-! ## One character further -/

theorem quotedFrom?_blank (h : isBlank c = true) :
    quotedFrom? quote ⟨before, gap, atLineStart, 0, 0⟩ (c :: rest) =
      quotedFrom? quote ⟨before, gap.addBlank c, false, 0, 0⟩ rest := by
  rw [quotedFrom?.eq_def]
  simp [h]

theorem quotedFrom?_break (hblank : isBlank c = false) (h : isBreak c = true) :
    quotedFrom? quote ⟨before, gap, atLineStart, 0, 0⟩ (c :: rest) =
      quotedFrom? quote ⟨before, gap.addBreak c, true, 0, 0⟩ rest := by
  rw [quotedFrom?.eq_def]
  simp [hblank, h]

theorem quotedFrom?_text (hblank : isBlank c = false) (hbreak : isBreak c = false)
    (hquote : c ≠ quote) (hescape : ¬ (quote = '"' ∧ c = '\\')) :
    quotedFrom? quote ⟨before, gap, false, 0, 0⟩ (c :: rest) =
      quotedFrom? quote (.push ⟨before, gap, false, 0, 0⟩ c) rest := by
  rw [quotedFrom?.eq_def]
  simp [hblank, hbreak, hquote, hescape]

theorem quotedFrom?_simpleEscape {d : Char} (hbreak : isBreak c = false)
    (h : simpleEscape? c = some d) :
    quotedFrom? '"' ⟨before, gap, false, 0, 0⟩ ('\\' :: c :: rest) =
      quotedFrom? '"' (.push ⟨before, gap, false, 0, 0⟩ d) rest := by
  rw [quotedFrom?.eq_def]
  simp [isBlank, show isBreak '\\' = false from rfl, hbreak, h]

theorem quotedFrom?_codeEscape {n : Nat} (hbreak : isBreak c = false)
    (hsimple : simpleEscape? c = none) (h : codeLength? c = some n) :
    quotedFrom? '"' ⟨before, gap, false, 0, 0⟩ ('\\' :: c :: rest) =
      quotedFrom? '"' ⟨before, gap, false, n, 0⟩ rest := by
  rw [quotedFrom?.eq_def]
  simp [isBlank, show isBreak '\\' = false from rfl, hbreak, hsimple, h]

/-- The last digits of a code end it, and the character of the code is read. -/
theorem quotedFrom?_code {value n : Nat} {ds : List Char} (hne : ds ≠ [])
    (h : Text.digitsFrom? 16 value ds = some n) (hn : n.isValidChar) :
    quotedFrom? '"' ⟨before, gap, false, ds.length, value⟩ (ds ++ rest) =
      quotedFrom? '"' (.push ⟨before, gap, false, 0, 0⟩ (Char.ofNat n)) rest := by
  induction ds generalizing value with
  | nil => exact absurd rfl hne
  | cons d ds ih =>
    rw [Text.digitsFrom?] at h
    cases hd : Text.digit? 16 d with
    | none => rw [hd] at h; cases h
    | some x =>
      rw [hd] at h
      rw [List.cons_append, quotedFrom?.eq_def]
      cases ds with
      | nil =>
        obtain rfl : value * 16 + x = n := Option.some.inj h
        simp [hd, charOfCode?, hn, QuotedState.push]
      | cons e ds =>
        simp only [hd]
        rw [← ih (List.cons_ne_nil e ds) h]
        simp

/-- The text is over at the next quote, if it does not stand for itself by being written twice. -/
theorem quotedFrom?_close (hblank : isBlank quote = false) (hbreak : isBreak quote = false)
    (h : quote = '\'' → rest.head? ≠ some '\'') :
    quotedFrom? quote ⟨before, gap, false, 0, 0⟩ (quote :: rest) =
      some (String.ofList (gap.fill ++ before).reverse, rest) := by
  rw [quotedFrom?.eq_def]
  cases rest with
  | nil => simp [hblank, hbreak]
  | cons d rest =>
    have hd : ¬ (quote = '\'' ∧ d = '\'') := by
      rintro ⟨hq, rfl⟩
      exact h hq rfl
    simp [hblank, hbreak, hd]

theorem quotedFrom?_quoteTwice :
    quotedFrom? '\'' ⟨before, gap, false, 0, 0⟩ ('\'' :: '\'' :: rest) =
      quotedFrom? '\'' (.push ⟨before, gap, false, 0, 0⟩ '\'') rest := by
  rw [quotedFrom?.eq_def]
  simp [isBlank, show isBreak '\'' = false from rfl]

/-! ## Double quotes -/

theorem isBlank_of_isPrintable (h : isPrintable c = true) (hc : c ≠ ' ') : isBlank c = false := by
  have ht : c ≠ '\t' := by
    rintro rfl
    exact absurd h (by decide)
  simp [isBlank, hc, ht]

theorem isBlank_of_isBreak (h : isBreak c = true) : isBlank c = false := by
  refine Bool.eq_false_iff.mpr fun hc => ?_
  simp only [isBlank, Bool.or_eq_true, beq_iff_eq] at hc
  rcases hc with rfl | rfl <;> exact absurd h (by decide)

/-- What was read in quotes so far: the text in reverse, the blanks at its end kept apart. -/
def Holds (s : QuotedState) (read : List Char) : Prop :=
  ∃ before blanks, s = ⟨before, .blanks blanks, false, 0, 0⟩ ∧ read = blanks ++ before

theorem Holds.push {blanks read : List Char}
    (h : Holds ⟨before, .blanks blanks, false, 0, 0⟩ read) (c : Char) :
    Holds (.push ⟨before, .blanks blanks, false, 0, 0⟩ c) (c :: read) := by
  obtain ⟨before, blanks, h, rfl⟩ := h
  cases h
  exact ⟨c :: (blanks ++ before), [], rfl, rfl⟩

theorem escape_of_lookup {n : Nat} (h : escapeLetters.lookup n = some c) :
    simpleEscape? c = some (Char.ofNat n) ∧ isBreak c = false := by
  have table : ∀ e ∈ escapeLetters,
      simpleEscape? e.2 = some (Char.ofNat e.1) ∧ isBreak e.2 = false := by decide
  obtain ⟨l, l', hl, -⟩ := List.lookup_eq_some_iff.mp h
  exact table (n, c) (hl ▸ List.mem_append_right l List.mem_cons_self)

/-- The digits of a code, in capital letters, are read as the code. -/
theorem digitsFrom?_upperHexadecimal {width n : Nat} (h : n < 16 ^ width) :
    Text.digitsFrom? 16 0 (upperHexadecimal width n) = some n := by
  have table : ∀ d ∈ Text.hexDigits, d.toUpper.toLower = d :=
    List.all_iff_forall_prop.mp (by decide)
  rw [Text.digitsFrom?_eq_some_iff, upperHexadecimal, List.length_map, Text.length_hexadecimal,
    List.map_map]
  refine ⟨h, (List.map_congr_left fun d hd => ?_).trans (List.map_id _)⟩
  exact table d (Text.hexadecimal_subset width n hd)

theorem quotedFrom?_upperHexadecimal {letter : Char} {width : Nat} (hw : 0 < width)
    (hbreak : isBreak letter = false) (hsimple : simpleEscape? letter = none)
    (hcode : codeLength? letter = some width) (hc : c.toNat < 16 ^ width) :
    quotedFrom? '"' ⟨before, gap, false, 0, 0⟩
        ('\\' :: letter :: (upperHexadecimal width c.toNat ++ rest)) =
      quotedFrom? '"' (.push ⟨before, gap, false, 0, 0⟩ c) rest := by
  have hlen : (upperHexadecimal width c.toNat).length = width := by
    rw [upperHexadecimal, List.length_map, Text.length_hexadecimal]
  have hread : quotedFrom? '"'
      ⟨before, gap, false, (upperHexadecimal width c.toNat).length, 0⟩
        (upperHexadecimal width c.toNat ++ rest) =
      quotedFrom? '"' (.push ⟨before, gap, false, 0, 0⟩ (Char.ofNat c.toNat)) rest :=
    quotedFrom?_code (List.ne_nil_of_length_pos (by omega)) (digitsFrom?_upperHexadecimal hc)
      c.valid
  rw [quotedFrom?_codeEscape hbreak hsimple hcode]
  rwa [hlen, Char.ofNat_toNat] at hread

/-- What is written for a character in double quotes is read as the character. -/
theorem quotedFrom?_doubleQuotedChar {s : QuotedState} {read : List Char} (h : Holds s read)
    (c : Char) (rest : List Char) :
    ∃ s', Holds s' (c :: read) ∧
      quotedFrom? '"' s (doubleQuotedChar c ++ rest) = quotedFrom? '"' s' rest := by
  obtain ⟨before, blanks, rfl, rfl⟩ := h
  have hpush := Holds.push ⟨before, blanks, rfl, rfl⟩ c
  rw [doubleQuotedChar]
  split
  · rename_i hc
    simp only [Bool.and_eq_true, Bool.not_eq_true', bne_iff_ne] at hc
    obtain ⟨⟨⟨hprint, hbreak⟩, hquote⟩, hescape⟩ := hc
    by_cases hblank : c = ' '
    · exact ⟨_, ⟨before, c :: blanks, rfl, rfl⟩, quotedFrom?_blank (by simp [isBlank, hblank])⟩
    · exact ⟨_, hpush, quotedFrom?_text (isBlank_of_isPrintable hprint hblank) hbreak hquote
        fun hq => hescape hq.2⟩
  · refine ⟨_, hpush, ?_⟩
    simp only
    split
    · rename_i letter hletter
      obtain ⟨hsimple, hbreak⟩ := escape_of_lookup hletter
      rw [Char.ofNat_toNat] at hsimple
      exact quotedFrom?_simpleEscape hbreak hsimple
    · have hchar : c.toNat < 16 ^ 8 := by
        have hv : c.toNat.isValidChar := c.valid
        unfold Nat.isValidChar at hv
        omega
      split
      · exact quotedFrom?_upperHexadecimal (by decide) rfl rfl rfl (by omega)
      · split
        · exact quotedFrom?_upperHexadecimal (by decide) rfl rfl rfl (by omega)
        · exact quotedFrom?_upperHexadecimal (by decide) rfl rfl rfl hchar

theorem quotedFrom?_flatMap {s : QuotedState} {read : List Char} (h : Holds s read) :
    quotedFrom? '"' s (cs.flatMap doubleQuotedChar ++ '"' :: rest) =
      some (String.ofList (read.reverse ++ cs), rest) := by
  induction cs generalizing s read with
  | nil =>
    obtain ⟨before, blanks, rfl, rfl⟩ := h
    rw [List.flatMap_nil, List.nil_append,
      quotedFrom?_close (by decide) (by decide) fun h => absurd h (by decide)]
    simp [Gap.fill]
  | cons c cs ih =>
    obtain ⟨s', hs', hread⟩ :=
      quotedFrom?_doubleQuotedChar h c (cs.flatMap doubleQuotedChar ++ '"' :: rest)
    rw [List.flatMap_cons, List.append_assoc, hread, ih hs']
    simp

/-- A text in double quotes is read as the text. -/
theorem quoted?_doubleQuoted (cs rest : List Char) :
    quoted? '"' (cs.flatMap doubleQuotedChar ++ '"' :: rest) = some (String.ofList cs, rest) :=
  quotedFrom?_flatMap ⟨[], [], rfl, rfl⟩

/-! ## Neighbours -/

theorem neighbours_cons (b : Option Char) (c : Char) (cs : List Char) :
    neighbours b (c :: cs) = ⟨b, c, cs.head?⟩ :: neighbours (some c) cs := by
  cases cs <;> rfl

/-! ## Single quotes -/

/-- A character that may stand in single quotes. -/
structure Neighbours.IsQuotable (n : Neighbours) : Prop where
  printable : isPrintable n.char = true
  breakAfterSpace : n.isBreakAfterSpace = false
  spaceAfterBreak : n.isSpaceAfterBreak = false
  not_feed : n.char ≠ '\n'

/-- What was read in single quotes behind a character: on one line, or in front of a new one. The
blanks at the end of a line come from a space there, and the first line break is no line feed. -/
inductive Reads : Option Char → Bool → QuotedState → List Char → Prop
  | text {b : Option Char} {before blanks : List Char} (h : blanks ≠ [] → b = some ' ') :
    Reads b false ⟨before, .blanks blanks, false, 0, 0⟩ (blanks ++ before)
  | broken {d f : Char} {before later : List Char} (hd : isBreak d = true) (hf : f ≠ '\n') :
    Reads (some d) true ⟨before, .broken [f] later, true, 0, 0⟩ (later ++ f :: before)

namespace Reads

variable {b : Option Char} {afterBreak : Bool} {s : QuotedState} {read : List Char}

theorem fill_append (h : Reads b afterBreak s read) : s.gap.fill ++ s.read = read := by
  cases h with
  | text => rfl
  | @broken _ f _ later _ hf => cases later <;> simp [Gap.fill, hf]

/-- A new line begins with an indentation, which is dropped. -/
theorem quotedFrom?_indented (h : Reads b afterBreak s read) (rest : List Char) :
    quotedFrom? quote s ((if afterBreak then spaces 2 else []) ++ rest) =
      quotedFrom? quote ⟨s.read, s.gap, false, 0, 0⟩ rest := by
  cases h with
  | text => rfl
  | broken => exact (quotedFrom?_blank rfl).trans (quotedFrom?_blank rfl)

theorem push (h : Reads b afterBreak s read) (c : Char) :
    Reads (some c) false (.push ⟨s.read, s.gap, false, 0, 0⟩ c) (c :: read) := by
  rw [← h.fill_append]
  exact @Reads.text _ _ [] fun h => absurd rfl h

theorem addSpace (h : Reads b afterBreak s read) (hb : b.any isBreak = false) :
    ∃ s', Reads (some ' ') false s' (' ' :: read) ∧ ∀ rest,
      quotedFrom? quote ⟨s.read, s.gap, false, 0, 0⟩ (' ' :: rest) = quotedFrom? quote s' rest := by
  cases h with
  | @text _ before blanks h =>
    exact ⟨⟨before, .blanks (' ' :: blanks), false, 0, 0⟩, .text fun _ => rfl, fun rest =>
      quotedFrom?_blank rfl⟩
  | broken hd =>
    rw [Option.any_some, hd] at hb
    cases hb

theorem addBreak (h : Reads b afterBreak s read) (hc : isBreak c = true)
    (hn : c ≠ '\n') (hb : b ≠ some ' ') :
    ∃ s', Reads (some c) true s' (c :: read) ∧
      ∀ rest, quotedFrom? quote s (c :: rest) = quotedFrom? quote s' rest := by
  have hblank := isBlank_of_isBreak hc
  cases h with
  | @text _ before blanks h =>
    obtain rfl : blanks = [] := by_contra fun hne => hb (h hne)
    exact ⟨⟨before, .broken [c] [], true, 0, 0⟩, .broken hc hn, fun rest =>
      quotedFrom?_break hblank hc⟩
  | @broken d f before later hd hf =>
    exact ⟨⟨before, .broken [f] (c :: later), true, 0, 0⟩, .broken hc hf, fun rest =>
      quotedFrom?_break hblank hc⟩

end Reads

theorem quotedFrom?_singleQuotedChars {b : Option Char} {afterBreak : Bool} {s : QuotedState}
    {read : List Char} (h : Reads b afterBreak s read)
    (hcs : ∀ n ∈ neighbours b cs, n.IsQuotable) (hrest : rest.head? ≠ some '\'') :
    quotedFrom? '\'' s (singleQuotedChars 2 afterBreak cs ++ '\'' :: rest) =
      some (String.ofList (read.reverse ++ cs), rest) := by
  induction cs generalizing b afterBreak s read with
  | nil =>
    rw [singleQuotedChars, h.quotedFrom?_indented, quotedFrom?_close (by decide) (by decide)
      fun _ => hrest, h.fill_append, List.append_nil]
  | cons c cs ih =>
    rw [neighbours_cons] at hcs
    obtain ⟨⟨hprint, hspace, hbroken, hfeed⟩, hcs⟩ := List.forall_mem_cons.mp hcs
    rw [singleQuotedChars]
    split
    · rename_i hbreak
      have hb : b ≠ some ' ' := by
        rintro rfl
        simp [Neighbours.isBreakAfterSpace, hbreak] at hspace
      obtain ⟨s', hs', hread⟩ := h.addBreak hbreak hfeed hb
      rw [List.cons_append, hread, ih hs' hcs]
      simp
    · rename_i hbreak
      rw [List.append_assoc, List.append_assoc, h.quotedFrom?_indented]
      split
      · rename_i hquote
        subst hquote
        rw [List.cons_append, List.singleton_append, quotedFrom?_quoteTwice, ih (h.push '\'') hcs]
        simp
      · rename_i hquote
        by_cases hblank : c = ' '
        · subst hblank
          have hb : b.any isBreak = false := by
            simpa [Neighbours.isSpaceAfterBreak] using hbroken
          obtain ⟨s', hs', hread⟩ := h.addSpace hb
          rw [List.singleton_append, hread, ih hs' hcs]
          simp
        · rw [List.singleton_append, quotedFrom?_text (isBlank_of_isPrintable hprint hblank)
            (by simpa using hbreak) hquote (by simp), ih (h.push c) hcs]
          simp

/-- A text in single quotes is read as the text, if no third quote follows. -/
theorem quoted?_singleQuoted (hcs : ∀ n ∈ neighbours none cs, n.IsQuotable)
    (hrest : rest.head? ≠ some '\'') :
    quoted? '\'' (singleQuotedChars 2 false cs ++ '\'' :: rest) = some (String.ofList cs, rest) :=
  quotedFrom?_singleQuotedChars (Reads.text fun h => absurd rfl h) hcs hrest

end Yaml

end Pipeline
