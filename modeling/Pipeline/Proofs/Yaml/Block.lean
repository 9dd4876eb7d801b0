import Pipeline.Proofs.Yaml.Unquoted

/-!
# Texts as blocks of lines

* `Yaml.blockLines?_literalChars`: the lines of a block are read as the text that they are written
  for, up to the treatment of its end.
* `Yaml.blockScalar?_literal`: a text that is written as a block is read as the text.
-/

namespace Pipeline

namespace Yaml

variable {cs line rest next : List Char} {b c : Char}

/-! ## Lines -/

/-- A text of lines of which each is ended. -/
inductive IsEnded : List Char → Prop
  | nil : IsEnded []
  | line {line rest : List Char} {b : Char} (hline : ∀ c ∈ line, isBreak c = false)
    (hb : isBreak b = true) (hrest : IsEnded rest) : IsEnded (line ++ b :: rest)

theorem IsEnded.cons (h : IsEnded cs) (hcs : cs ≠ []) (hc : isBreak c = false) :
    IsEnded (c :: cs) := by
  cases h with
  | nil => exact absurd rfl hcs
  | @line line rest b hline hb hrest =>
    exact @IsEnded.line (c :: line) rest b (List.forall_mem_cons.mpr ⟨hc, hline⟩) hb hrest

/-- The lines of a text are ended if the last one is. -/
theorem isEnded_of_getLast? (h : ∀ c, cs.getLast? = some c → isBreak c = true) : IsEnded cs := by
  have hempty {b : Char} {rest : List Char} (hb : isBreak b = true) (hrest : IsEnded rest) :
      IsEnded (b :: rest) := @IsEnded.line [] rest b (by simp) hb hrest
  induction cs with
  | nil => exact .nil
  | cons c cs ih =>
    cases cs with
    | nil => exact hempty (h c rfl) .nil
    | cons d cs =>
      have hrest : IsEnded (d :: cs) := ih fun e he => h e (by simpa using he)
      cases hc : isBreak c with
      | true => exact hempty hc hrest
      | false => exact hrest.cons (List.cons_ne_nil d cs) hc

theorem linesOf_append (hline : ∀ c ∈ line, isBreak c = false) (hb : isBreak b = true) :
    linesOf (line ++ b :: rest) = (line, [b]) :: linesOf rest := by
  induction line with
  | nil => rw [List.nil_append, linesOf, if_pos hb]
  | cons c line ih =>
    obtain ⟨hc, hline⟩ := List.forall_mem_cons.mp hline
    rw [List.cons_append, linesOf, if_neg (by simp [hc]), ih hline]

theorem unlinesOf_linesOf (cs : List Char) : unlinesOf (linesOf cs) = cs := by
  induction cs with
  | nil => rfl
  | cons c cs ih =>
    rw [linesOf]
    split
    · rw [unlinesOf, List.flatMap_cons]
      exact congrArg (c :: ·) ih
    · split
      · rename_i h
        rw [h] at ih
        rw [← ih]
        rfl
      · rename_i h
        rw [h] at ih
        rw [← ih]
        rfl

/-- A line of a block: indented, unless nothing stands on it. -/
def blockLine : List Char → List Char
  | [] => []
  | c :: cs => ' ' :: ' ' :: c :: cs

theorem literalChars_false_append (hline : ∀ c ∈ line, isBreak c = false) :
    literalChars 2 false (line ++ rest) = line ++ literalChars 2 false rest := by
  induction line with
  | nil => rfl
  | cons c line ih =>
    obtain ⟨hc, hline⟩ := List.forall_mem_cons.mp hline
    rw [List.cons_append, literalChars, if_neg (by simp [hc]), ih hline]
    rfl

theorem literalChars_append (hline : ∀ c ∈ line, isBreak c = false) (hb : isBreak b = true) :
    literalChars 2 true (line ++ b :: rest) = blockLine line ++ b :: literalChars 2 true rest := by
  have hbreak (afterBreak : Bool) :
      literalChars 2 afterBreak (b :: rest) = b :: literalChars 2 true rest := by
    rw [literalChars, if_pos hb]
  cases line with
  | nil => exact hbreak true
  | cons c line =>
    obtain ⟨hc, hline⟩ := List.forall_mem_cons.mp hline
    rw [List.cons_append, literalChars, if_neg (by simp [hc]), literalChars_false_append hline,
      hbreak]
    rfl

theorem linesOf_blockLine (hline : ∀ c ∈ line, isBreak c = false) (hb : isBreak b = true) :
    linesOf (blockLine line ++ b :: rest) = (blockLine line, [b]) :: linesOf rest := by
  refine linesOf_append (fun c hc => ?_) hb
  cases line with
  | nil => cases hc
  | cons d line =>
    simp only [blockLine, List.mem_cons] at hc
    rcases hc with rfl | rfl | hc
    · rfl
    · rfl
    · exact hline c (List.mem_cons.mpr hc)

theorem linesOf_cons (hc : isBreak c = false) (cs : List Char) :
    ∃ line lineEnd rest, linesOf (c :: cs) = (c :: line, lineEnd) :: rest := by
  rw [linesOf, if_neg (by simp [hc])]
  cases linesOf cs with
  | nil => exact ⟨[], [], [], rfl⟩
  | cons l rest => exact ⟨l.1, l.2, rest, rfl⟩

/-! ## One line further -/

section

variable {chomping : Chomping} {s : BlockState} {lines : List (List Char × List Char)}

theorem blockLines?_empty :
    blockLines? false chomping 2 s (([], [b]) :: lines) =
      blockLines? false chomping 2 ⟨s.read, s.lineEnd, b :: s.breaks, s.blankStart⟩ lines := rfl

theorem blockLines?_indented :
    blockLines? false chomping 2 s ((' ' :: ' ' :: c :: line, [b]) :: lines) =
      blockLines? false chomping 2
        ⟨(c :: line).reverse ++ (s.breaks ++ s.lineEnd ++ s.read), [b], [], isBlank c⟩ lines := by
  have hspaces : leadingSpaces 2 (' ' :: ' ' :: c :: line) = 2 := by
    simp [leadingSpaces]
  rw [blockLines?, hspaces]
  simp [BlockState.join]

/-- A block ends where the text does or something is not indented. -/
theorem blockLines?_next (h : IsNext next) :
    blockLines? false chomping 2 s (linesOf next) = some (s.finish chomping, next) := by
  rcases h with rfl | ⟨more, rfl⟩
  · rfl
  · obtain ⟨line, lineEnd, rest, hlines⟩ := linesOf_cons (c := '-') rfl more
    have hspaces : leadingSpaces 2 ('-' :: line) = 0 := by
      simp [leadingSpaces]
    have htext : unlinesOf (('-' :: line, lineEnd) :: rest) = '-' :: more := by
      rw [← hlines, unlinesOf_linesOf]
    rw [hlines, blockLines?.eq_def]
    simp [hspaces, htext]

end

/-! ## What was read -/

namespace BlockState

variable {s : BlockState} {chomping : Chomping} {read : List Char}

/-- What was read of a block, in reverse. -/
def content (s : BlockState) : List Char := s.breaks ++ s.lineEnd ++ s.read

/-- The states of a reader behind whole lines: line breaks only, or a line on which something stands
and line breaks behind it. -/
inductive IsRead : BlockState → Prop
  | start {breaks : List Char} (hbreaks : ∀ b ∈ breaks, isBreak b = true) (flag : Bool) :
    IsRead ⟨[], [], breaks, flag⟩
  | line {c b : Char} {read breaks : List Char} (hc : isBreak c = false) (hb : isBreak b = true)
    (hbreaks : ∀ b ∈ breaks, isBreak b = true) (flag : Bool) : IsRead ⟨c :: read, [b], breaks, flag⟩

theorem IsRead.empty (h : s.IsRead) (hb : isBreak b = true) :
    IsRead ⟨s.read, s.lineEnd, b :: s.breaks, s.blankStart⟩ := by
  cases h with
  | start hbreaks flag => exact .start (List.forall_mem_cons.mpr ⟨hb, hbreaks⟩) flag
  | line hc hb' hbreaks flag => exact .line hc hb' (List.forall_mem_cons.mpr ⟨hb, hbreaks⟩) flag

theorem isRead_line (hc : isBreak c = false) (hline : ∀ c ∈ line, isBreak c = false)
    (hb : isBreak b = true) (read : List Char) (flag : Bool) :
    IsRead ⟨(c :: line).reverse ++ read, [b], [], flag⟩ := by
  cases hlast : (c :: line).reverse with
  | nil => simp at hlast
  | cons d ds =>
    have hd : d ∈ c :: line := List.mem_reverse.mp (hlast ▸ List.mem_cons_self)
    have hall : ∀ d ∈ c :: line, isBreak d = false := List.forall_mem_cons.mpr ⟨hc, hline⟩
    exact .line (hall d hd) hb (by simp) flag

/-- Behind a line on which something stands, the line is what was read last. -/
theorem IsRead.last (h : s.IsRead) (hread : s.content = b :: c :: read)
    (hc : isBreak c = false) : s.breaks = [] ∧ s.lineEnd = [b] ∧ s.read = c :: read := by
  cases h with
  | @start breaks hbreaks =>
    obtain rfl : breaks = b :: c :: read := by simpa [content] using hread
    simp [hc] at hbreaks
  | @line d e before breaks hd he hbreaks =>
    cases breaks with
    | nil => simpa [content] using hread
    | cons x breaks =>
      cases breaks with
      | nil =>
        have hec : e = c := by
          simp only [content, List.cons_append, List.nil_append, List.cons.injEq] at hread
          exact hread.2.1
        simp [hec ▸ he] at hc
      | cons y breaks =>
        have hyc : y = c := by
          simp only [content, List.cons_append, List.cons.injEq] at hread
          exact hread.2.1
        simp [hyc, hc] at hbreaks

theorem finish_keep : s.finish .keep = String.ofList s.content.reverse := rfl

theorem IsRead.finish_clip (h : s.IsRead) (hread : s.content = b :: c :: read)
    (hc : isBreak c = false) : s.finish .clip = String.ofList (b :: c :: read).reverse := by
  obtain ⟨-, hend, hread⟩ := h.last hread hc
  rw [finish, hend, hread]
  rfl

theorem IsRead.finish_strip (h : s.IsRead) (hread : s.content = b :: c :: read)
    (hc : isBreak c = false) : s.finish .strip = String.ofList (c :: read).reverse := by
  obtain ⟨-, -, hread⟩ := h.last hread hc
  rw [finish, hread]
  rfl

end BlockState

/-- The lines of a block are read as the text that they were written for. -/
theorem blockLines?_literalChars (chomping : Chomping) {s : BlockState} (h : s.IsRead)
    (hcs : IsEnded cs) (hnext : IsNext next) :
    ∃ s', BlockState.IsRead s' ∧ s'.content = cs.reverse ++ s.content ∧
      blockLines? false chomping 2 s (linesOf (literalChars 2 true cs ++ next)) =
        some (s'.finish chomping, next) := by
  induction hcs generalizing s with
  | nil => exact ⟨s, h, rfl, blockLines?_next hnext⟩
  | @line line rest b hline hb hrest ih =>
    rw [literalChars_append hline hb, List.append_assoc, List.cons_append,
      linesOf_blockLine hline hb]
    cases line with
    | nil =>
      obtain ⟨s', hs', hcontent, hlines⟩ := ih (h.empty hb)
      refine ⟨s', hs', ?_, blockLines?_empty.trans hlines⟩
      rw [hcontent]
      simp [BlockState.content]
    | cons c line =>
      obtain ⟨hc, hline⟩ := List.forall_mem_cons.mp hline
      obtain ⟨s', hs', hcontent, hlines⟩ := ih (BlockState.isRead_line hc hline hb s.content _)
      refine ⟨s', hs', ?_, blockLines?_indented.trans hlines⟩
      rw [hcontent]
      simp [BlockState.content]

/-! ## Blocks -/

/-- What a text has to be followed by so that its last line is ended. -/
def lineEndOf (cs : List Char) : List Char := if cs.getLast?.any isBreak then [] else ['\n']

theorem lineEndOf_of_getLast? (h : cs.getLast? = some c) (hc : isBreak c = false) :
    lineEndOf cs = ['\n'] := by
  rw [lineEndOf, h, Option.any_some, hc]
  rfl

/-- The end of a text decides how its last line is ended. -/
theorem lineEndOf_append (before : List Char) (h : cs ≠ []) :
    lineEndOf (before ++ cs) = lineEndOf cs := by
  obtain ⟨c, hc⟩ := Option.ne_none_iff_exists'.mp (mt List.getLast?_eq_none_iff.mp h)
  rw [lineEndOf, lineEndOf, List.getLast?_append, hc]
  rfl

theorem exists_append_lineEndOf (cs : List Char) :
    ∃ before b, cs ++ lineEndOf cs = before ++ [b] ∧ isBreak b = true := by
  rw [lineEndOf]
  split
  · rename_i hlast
    cases hb : cs.getLast? with
    | none =>
      rw [hb] at hlast
      cases hlast
    | some b =>
      obtain ⟨before, rfl⟩ := List.getLast?_eq_some_iff.mp hb
      rw [hb] at hlast
      exact ⟨before, b, List.append_nil _, hlast⟩
  · exact ⟨cs, '\n', rfl, rfl⟩

theorem isEnded_append_lineEndOf (cs : List Char) : IsEnded (cs ++ lineEndOf cs) := by
  obtain ⟨before, b, hcs, hb⟩ := exists_append_lineEndOf cs
  rw [hcs]
  refine isEnded_of_getLast? fun c hc => ?_
  rw [List.getLast?_concat] at hc
  exact Option.some.inj hc ▸ hb

theorem literalChars_append_lineEndOf (cs : List Char) :
    literalChars 2 true (cs ++ lineEndOf cs) = literalChars 2 true cs ++ lineEndOf cs := by
  have hfeed (afterBreak : Bool) :
      literalChars 2 afterBreak (cs ++ ['\n']) = literalChars 2 afterBreak cs ++ ['\n'] := by
    induction cs generalizing afterBreak with
    | nil => rfl
    | cons c cs ih =>
      rw [List.cons_append, literalChars, literalChars, ih, ih]
      split <;> simp
  rw [lineEndOf]
  split
  · rw [List.append_nil, List.append_nil]
  · exact hfeed true

theorem getLast?_literalChars (afterBreak : Bool) (cs : List Char) :
    (literalChars 2 afterBreak cs).getLast? = cs.getLast? := by
  induction cs generalizing afterBreak with
  | nil => rfl
  | cons c cs ih =>
    rw [literalChars]
    split
    · rw [List.getLast?_cons, ih, List.getLast?_cons]
    · rw [List.getLast?_append, List.getLast?_cons, ih, List.getLast?_cons]
      rfl

theorem lineEndOf_literalChars (cs : List Char) :
    lineEndOf (literalChars 2 true cs) = lineEndOf cs := by
  rw [lineEndOf, getLast?_literalChars, lineEndOf]

/-- How the end of a block is treated that is written for a text. -/
def chompingOf (cs : List Char) : Chomping :=
  match cs.reverse with
  | [] => .strip
  | c :: rest =>
    if !isBreak c then .strip else if rest.isEmpty || rest.head?.any isBreak then .keep else .clip

/-- The indentation that is told of a block that is written for a text: that of a first line which
does not show it. -/
def incrementOf : List Char → Option Nat
  | [] => none
  | c :: _ => if c == ' ' || isBreak c then some 2 else none

/-- The head of a block tells both. -/
theorem blockHeader?_literalHints (cs rest : List Char) :
    blockHeader? (literalHints cs ++ '\n' :: rest) =
      some (⟨chompingOf cs, incrementOf cs⟩, '\n' :: rest) := by
  unfold literalHints chompingOf incrementOf
  cases cs with
  | nil => rfl
  | cons c cs =>
    cases (c :: cs).reverse with
    | nil => dsimp only; split <;> rfl
    | cons d before =>
      -- The indentation is told or not, with each of the three ends.
      dsimp only
      split <;> split <;> (try split) <;> rfl

/-- Where a block ends, its end is treated so that what is left is the text. -/
theorem BlockState.IsRead.finish_chompingOf {s : BlockState} (h : s.IsRead) (hcs : cs ≠ [])
    (hread : s.content = (cs ++ lineEndOf cs).reverse) :
    s.finish (chompingOf cs) = String.ofList cs := by
  cases hrev : cs.reverse with
  | nil => exact absurd (List.reverse_eq_nil_iff.mp hrev) hcs
  | cons c before =>
    have htext : String.ofList (c :: before).reverse = String.ofList cs := by
      rw [← hrev, List.reverse_reverse]
    have hlast : cs.getLast? = some c := by
      rw [List.getLast?_eq_head?_reverse, hrev]
      rfl
    rw [List.reverse_append, hrev, lineEndOf, hlast, Option.any_some] at hread
    cases hbreak : isBreak c with
    | false =>
      have hstrip : chompingOf cs = .strip := by simp [chompingOf, hrev, hbreak]
      rw [hbreak] at hread
      rw [hstrip, h.finish_strip hread hbreak, htext]
    | true =>
      rw [hbreak, if_pos rfl, List.reverse_nil, List.nil_append] at hread
      by_cases hkeep : before.isEmpty || before.head?.any isBreak
      · have hchomping : chompingOf cs = .keep := by simp [chompingOf, hrev, hbreak, hkeep]
        rw [hchomping, finish_keep, hread, htext]
      · have hchomping : chompingOf cs = .clip := by simp [chompingOf, hrev, hbreak, hkeep]
        cases before with
        | nil => exact absurd rfl hkeep
        | cons d before =>
          have hd : isBreak d = false := by simpa using hkeep
          rw [hchomping, h.finish_clip hread hd, htext]

theorem detectIndent?_literalChars (hc : c ≠ ' ') (hbreak : isBreak c = false)
    (htab : c ≠ '\t') (cs rest : List Char) :
    detectIndent? 1 (linesOf (literalChars 2 true (c :: cs) ++ rest)) = some 2 := by
  have hchars : literalChars 2 true (c :: cs) ++ rest =
      ' ' :: ' ' :: c :: (literalChars 2 false cs ++ rest) := by
    rw [literalChars, if_neg (by simp [hbreak])]
    rfl
  obtain ⟨line, lineEnd, lines, hlines⟩ := linesOf_cons hbreak (literalChars 2 false cs ++ rest)
  have hline : linesOf (' ' :: ' ' :: c :: (literalChars 2 false cs ++ rest)) =
      (' ' :: ' ' :: c :: line, lineEnd) :: lines := by
    rw [linesOf, linesOf, hlines]
    rfl
  have hspaces : leadingSpaces (' ' :: ' ' :: c :: line).length (' ' :: ' ' :: c :: line) = 2 := by
    simp [leadingSpaces, hc]
  rw [hchars, hline, detectIndent?, hspaces]
  simp

/-- The lines of a block show their indentation if the head does not tell it. -/
theorem indentation_literalChars (hcs : cs ≠ []) (hprint : ∀ c ∈ cs, isPrintable c = true)
    (rest : List Char) :
    incrementOf cs = some 2 ∨ incrementOf cs = none ∧
      detectIndent? 1 (linesOf (literalChars 2 true cs ++ rest)) = some 2 := by
  cases cs with
  | nil => exact absurd rfl hcs
  | cons c cs =>
    rw [incrementOf]
    by_cases hc : c == ' ' || isBreak c
    · exact .inl (if_pos hc)
    · refine .inr ⟨if_neg hc, ?_⟩
      simp only [Bool.or_eq_true, beq_iff_eq, not_or, Bool.not_eq_true] at hc
      have htab : c ≠ '\t' := by
        rintro rfl
        exact absurd (hprint '\t' List.mem_cons_self) (by decide)
      exact detectIndent?_literalChars hc.1 hc.2 htab cs rest

/-- A text that is written as a block is read as the text. -/
theorem blockScalar?_literal (hcs : cs ≠ []) (hprint : ∀ c ∈ cs, isPrintable c = true)
    (hnext : IsNext next) :
    blockScalar? false 0
        (literalHints cs ++ '\n' :: (literalChars 2 true cs ++ (lineEndOf cs ++ next))) =
      some (String.ofList cs, next) := by
  have hstart : BlockState.IsRead ⟨[], [], [], false⟩ := .start (by simp) false
  obtain ⟨s, hs, hcontent, hlines⟩ := blockLines?_literalChars (chompingOf cs) hstart
    (isEnded_append_lineEndOf cs) hnext
  rw [literalChars_append_lineEndOf, List.append_assoc,
    hs.finish_chompingOf hcs (by simpa [BlockState.content] using hcontent)] at hlines
  have hline (body : List Char) : afterLine? ('\n' :: body) = some body := rfl
  rw [blockScalar?, blockHeader?_literalHints]
  simp only [hline]
  rcases indentation_literalChars hcs hprint (lineEndOf cs ++ next) with hn | ⟨hn, hdetect⟩
  · simpa [hn] using hlines
  · simpa [hn, hdetect] using hlines

end Yaml

end Pipeline
