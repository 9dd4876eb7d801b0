import Pipeline.Proofs.Yaml.Scalar
import Pipeline.Yaml.Token.Layout

/-!
# The layout of a list

The hyphens of a list that is a document stand at the starts of lines, so the list is one block
collection that no later line ends. All a reader has to pass between two entries is the end of a
line, unless the text of the entry has taken it. A key may have begun with a text, but none is left
on the next line.

* `Yaml.Layout.IsReady`: a reader in front of an entry of a list, or behind the last one.
* `Yaml.Layout.finish?_entry`, `Yaml.Layout.leads_written`: an entry is read by its hyphen and its
  text, and the reader is ready for the next one.
* `Yaml.Layout.finish?_start`, `Yaml.Layout.finish?_end`: where a list begins and ends.
-/

namespace Pipeline

namespace Yaml

variable {c b : Char} {cs rest : List Char}

/-! ## Places -/

namespace Position

/-- The place behind a text. -/
def behind (p : Position) (cs : List Char) : Position := cs.foldl next p

theorem line_le_next (p : Position) (c : Char) : p.line ≤ (p.next c).line := by
  rw [next]
  split
  · exact Nat.le_succ p.line
  · exact Nat.le_refl p.line

theorem line_le_behind (p : Position) (cs : List Char) : p.line ≤ (p.behind cs).line := by
  induction cs generalizing p with
  | nil => exact Nat.le_refl p.line
  | cons c cs ih => exact Nat.le_trans (p.line_le_next c) (ih (p.next c))

/-- Behind a line break stands the start of a later line. -/
theorem behind_break (p : Position) (cs : List Char) (hb : isBreak b = true) :
    (p.behind (cs ++ [b])).column = 0 ∧ p.line < (p.behind (cs ++ [b])).line := by
  have hnext : p.behind (cs ++ [b]) = ⟨(p.behind cs).line + 1, 0, (p.behind cs).offset + 1⟩ := by
    rw [behind, List.foldl_append, List.foldl_cons, List.foldl_nil, next, if_pos hb]
    rfl
  rw [hnext]
  exact ⟨rfl, Nat.lt_succ_of_le (p.line_le_behind cs)⟩

end Position

/-! ## Words -/

/-- A text that is over or begins with a character that no gap holds. -/
def IsWord (cs : List Char) : Prop :=
  ∀ c, cs.head? = some c → isBlank c = false ∧ c ≠ '#' ∧ isBreak c = false

theorem IsWord.dropWhile (h : IsWord rest) (tabs : Bool) (n : Nat) :
    (spaces n ++ rest).dropWhile (fun c => c == ' ' || (tabs && c == '\t')) = rest := by
  rw [List.dropWhile_append_of_pos fun c hc => by simp [List.eq_of_mem_replicate hc]]
  cases rest with
  | nil => rfl
  | cons c rest =>
    have := (h c rfl).1
    simp only [isBlank, Bool.or_eq_false_iff] at this
    simp [this.1, this.2]

theorem IsWord.dropComment (h : IsWord rest) : dropComment rest = rest := by
  unfold Yaml.dropComment
  split
  · exact absurd rfl (h '#' rfl).2.1
  · rfl

/-- A text that is written as it is begins with no gap. -/
theorem Neighbours.IsPlain.isWord {behind : Option Char} (h : IsPlain ⟨none, c, behind⟩) :
    isBlank c = false ∧ c ≠ '#' ∧ isBreak c = false := by
  have hspace : c ≠ ' ' := by
    rintro rfl
    exact absurd h.outerGap (by simp [isOuterGap])
  have hcomment : c ≠ '#' := by
    rintro rfl
    exact absurd h.indicates (by simp [Neighbours.indicates])
  exact ⟨isBlank_of_isPrintable h.printable hspace, hcomment, h.not_break⟩

theorem isPlain_head (h : ∀ n ∈ neighbours none (c :: cs), n.IsPlain) :
    Neighbours.IsPlain ⟨none, c, cs.head?⟩ :=
  h _ (neighbours_cons none c cs ▸ List.mem_cons_self)

theorem IsNext.eq_of_head? (h : IsNext rest) (hc : rest.head? = some c) : c = '-' := by
  rcases h with rfl | ⟨more, rfl⟩
  · cases hc
  · exact (Option.some.inj hc).symm

/-- What stands behind an entry is no gap. -/
theorem IsNext.isWord (h : IsNext rest) : IsWord rest := by
  intro c hc
  obtain rfl := h.eq_of_head? hc
  decide

theorem IsNext.head?_ne (h : IsNext rest) : ∀ c, rest.head? = some c → c.toNat ≠ 0xFEFF := by
  intro c hc
  obtain rfl := h.eq_of_head? hc
  decide

namespace Layout

variable {s : Layout}

theorem skip_append (h : s.rest = cs ++ rest) :
    s.skip cs.length = { s with rest := rest, position := s.position.behind cs } := by
  induction cs generalizing s with
  | nil =>
    rw [List.nil_append] at h
    rw [← h]
    rfl
  | cons c cs ih =>
    rw [List.length_cons, skip, h, List.cons_append]
    exact ih (s := { s with rest := cs ++ rest, position := s.position.next c }) rfl

/-- Where the text that is left was found behind some characters, these are passed. -/
theorem goTo_append (h : s.rest = cs ++ rest) :
    s.goTo rest = { s with rest := rest, position := s.position.behind cs } := by
  have hlength : s.rest.length - rest.length = cs.length := by
    rw [h, List.length_append]
    omega
  rw [goTo, hlength, skip_append h]

/-! ## Gaps -/

/-- Spaces in front of a word are passed. -/
theorem skipGaps_spaces {n : Nat} (h : s.rest = spaces n ++ rest) (hrest : IsWord rest)
    (fuel : Nat) :
    s.skipGaps (fuel + 1) =
      { s with rest := rest, position := s.position.behind (spaces n) } := by
  rw [skipGaps]
  simp only [h, hrest.dropWhile, hrest.dropComment, goTo_append h]
  cases rest with
  | nil => rfl
  | cons c rest => simp [(hrest c rfl).2.2]

/-- Nothing is passed in front of a word. -/
theorem skipGaps_word (h : IsWord s.rest) (fuel : Nat) : s.skipGaps (fuel + 1) = s :=
  skipGaps_spaces (n := 0) rfl h fuel

/-- Behind a line feed a key may begin. -/
theorem skipGaps_lineFeed (h : s.rest = '\n' :: rest) (hrest : IsWord rest) (houter : s.outer = [])
    (fuel : Nat) :
    s.skipGaps (fuel + 2) =
      { s with rest := rest, position := s.position.behind ['\n'], keyAllowed := true } := by
  rw [skipGaps]
  have hgap (tabs : Bool) :
      ('\n' :: rest).dropWhile (fun c => c == ' ' || (tabs && c == '\t')) = '\n' :: rest := by
    simp
  have hcomment : dropComment ('\n' :: rest) = '\n' :: rest := rfl
  have hgoTo : s.goTo ('\n' :: rest) = s := by
    rw [goTo, h, Nat.sub_self]
    rfl
  have hskip : s.skip 1 = { s with rest := rest, position := s.position.behind ['\n'] } :=
    @skip_append ['\n'] rest s h
  simp only [hgap, hcomment, hgoTo, h, hskip]
  rw [if_pos (by decide), skipGaps_word (by exact hrest)]
  simp [inFlow, houter]

/-! ## Keys -/

/-- A key that may have begun on an earlier line is forgotten. -/
theorem dropStaleKeys?_eq (houter : s.outer = [])
    (hkey : ∀ k, s.key = some k → k.required = false ∧ k.position.line < s.position.line) :
    s.dropStaleKeys? = some { s with key := none } := by
  cases hk : s.key with
  | none =>
    rw [dropStaleKeys?, hk, houter]
    simp [freshKey?]
  | some k =>
    obtain ⟨hrequired, hline⟩ := hkey k hk
    have hstale : s.isStale k = true := by simp [isStale, hline]
    rw [dropStaleKeys?, hk, houter]
    simp [freshKey?, hstale, hrequired]

theorem skipByteOrderMark_eq (h : ∀ c, s.rest.head? = some c → c.toNat ≠ 0xFEFF) :
    s.skipByteOrderMark = s := by
  unfold skipByteOrderMark
  split
  · rename_i c cs hs
    exact if_neg fun hmark => h c (hs ▸ rfl) hmark.2
  · rfl

/-! ## One word further -/

/-- The reader of a list that is not indented, where no key has begun. -/
def inList (rest : List Char) (p : Position) (tokens : List Token) (count : Nat) : Layout :=
  ⟨rest, p, tokens, count, none, [], 0, [-1], true⟩

variable {tokens : List Token} {p : Position} {count : Nat}

theorem dropStaleKeys?_inList :
    (inList rest p tokens count).dropStaleKeys? = some (inList rest p tokens count) :=
  dropStaleKeys?_eq rfl (by simp [inList])

theorem dedentTo_inList (column : Nat) :
    (inList rest p tokens count).dedentTo column = inList rest p tokens count := by
  have h : ¬ ((column : Int) < 0) := by omega
  simp [dedentTo, inFlow, inList, closeBlocks, h]

/-- The next word of a list is read where the gaps in front of it are passed. -/
theorem finish?_word (h : (s.skipByteOrderMark.skipGaps (s.rest.length + 1)).dropStaleKeys? =
    some (inList (c :: cs) p tokens count)) (fuel : Nat) :
    s.finish? (fuel + 1) = ((inList (c :: cs) p tokens count).word? c cs).bind (finish? fuel) := by
  have hrest : (inList (c :: cs) p tokens count).rest = c :: cs := rfl
  rw [finish?, h]
  simp only [dedentTo_inList, hrest]
  cases (inList (c :: cs) p tokens count).word? c cs <;> rfl

theorem isDocumentMark_hyphen (mark : Char) :
    isDocumentMark mark ('-' :: ' ' :: cs) = false := by
  cases cs with
  | nil => rfl
  | cons c cs =>
    have hne : ('-' == mark && ' ' == mark) = false := by
      by_cases hm : '-' = mark
      · subst hm
        rfl
      · simp [hm]
    rw [isDocumentMark, hne]
    rfl

/-- A hyphen begins an entry. -/
theorem word?_hyphen (hcolumn : p.column = 0) :
    (inList ('-' :: ' ' :: cs) p tokens count).word? '-' (' ' :: cs) =
      some (inList (' ' :: cs) (p.next '-') (.blockEntry :: tokens) (count + 1)) := by
  rw [word?]
  simp [inList, hcolumn, isDocumentMark_hyphen, endsWord, isBlank, blockEntry?, inFlow, indentTo,
    dropKey?, mark, skip, emit]

/-- The first hyphen of a document begins a list, too. -/
theorem word?_start :
    (start ('-' :: ' ' :: cs)).word? '-' (' ' :: cs) =
      some (inList (' ' :: cs) ((⟨0, 0, 0⟩ : Position).next '-') [.blockEntry, .blockSequenceStart]
        2) := by
  rw [word?]
  simp [start, inList, isDocumentMark_hyphen, endsWord, isBlank, blockEntry?, inFlow, indentTo,
    dropKey?, mark, skip, emit, emitAt]

/-- The reader of a list, in front of an entry or behind the last one: what may have to be passed
leads to the start of a line. -/
def IsReady (s : Layout) (rest : List Char) (tokens : List Token) : Prop :=
  ∃ p count, p.column = 0 ∧
    (s.skipByteOrderMark.skipGaps (s.rest.length + 1)).dropStaleKeys? =
      some (inList rest p tokens count)

/-- An entry is read by its hyphen and the word behind it. -/
theorem finish?_entry (h : s.IsReady ('-' :: ' ' :: c :: cs) tokens) (hword : IsWord (c :: cs))
    (fuel : Nat) :
    ∃ p count, p.column = 2 ∧ s.finish? (fuel + 2) =
      ((inList (c :: cs) p (.blockEntry :: tokens) count).word? c cs).bind (finish? fuel) := by
  obtain ⟨p, count, hcolumn, hready⟩ := h
  refine ⟨(p.next '-').next ' ', count + 1, ?_, ?_⟩
  · simp [Position.next, isBreak, hcolumn]
  have hspace : (inList (' ' :: c :: cs) (p.next '-') (.blockEntry :: tokens)
      (count + 1)).skipByteOrderMark.skipGaps ((' ' :: c :: cs).length + 1) =
        inList (c :: cs) ((p.next '-').next ' ') (.blockEntry :: tokens) (count + 1) := by
    rw [skipByteOrderMark_eq (by simp [inList])]
    exact skipGaps_spaces (n := 1) rfl hword _
  rw [finish?_word hready, word?_hyphen hcolumn, Option.bind_some, finish?_word]
  exact (congrArg dropStaleKeys? hspace).trans dropStaleKeys?_inList

/-! ## Texts -/

theorem dropStaleKeys?_of_next (hnext : IsNext s.rest) (houter : s.outer = [])
    (hkey : ∀ k, s.key = some k → k.required = false ∧ k.position.line < s.position.line) :
    (s.skipByteOrderMark.skipGaps (s.rest.length + 1)).dropStaleKeys? =
      some { s with key := none } := by
  rw [skipByteOrderMark_eq hnext.head?_ne, skipGaps_word hnext.isWord,
    dropStaleKeys?_eq houter hkey]

/-- Behind the line of an entry, a key that may have begun there is forgotten. -/
theorem isReady_of_next {key : Option PendingKey} (hnext : IsNext rest) (hcolumn : p.column = 0)
    (hkey : ∀ k, key = some k → k.required = false ∧ k.position.line < p.line) :
    IsReady ⟨rest, p, tokens, count, key, [], 0, [-1], true⟩ rest tokens :=
  ⟨p, count, hcolumn, dropStaleKeys?_of_next hnext rfl hkey⟩

/-- The same where the line is still to be ended. -/
theorem isReady_of_lineFeed {key : Option PendingKey} {keyAllowed : Bool} (hnext : IsNext rest)
    (hkey : ∀ k, key = some k → k.required = false ∧ k.position.line ≤ p.line) :
    IsReady ⟨'\n' :: rest, p, tokens, count, key, [], 0, [-1], keyAllowed⟩ rest tokens := by
  refine ⟨p.behind ['\n'], count, rfl, ?_⟩
  rw [skipByteOrderMark_eq (by simp), List.length_cons, skipGaps_lineFeed rfl hnext.isWord rfl,
    dropStaleKeys?_eq rfl fun k hk => ⟨(hkey k hk).1, Nat.lt_succ_of_le (hkey k hk).2⟩]
  rfl

theorem saveKey?_inList (hcolumn : p.column = 2) :
    (inList rest p tokens count).saveKey? =
      some { inList rest p tokens count with key := some ⟨false, count, p⟩ } := by
  simp [saveKey?, inList, dropKey?, inFlow, hcolumn]

/-- A text in quotes is read as one word. A key may have begun with it. -/
theorem word?_quoted {quote : Char} {text : String} (hquote : quote = '"' ∨ quote = '\'')
    (h : quoted? quote cs = some (text, rest)) (read : List Char)
    (hread : quote :: cs = read ++ rest) (hcolumn : p.column = 2) :
    (inList (quote :: cs) p tokens count).word? quote cs =
      some ⟨rest, p.behind read, .scalar .quoted text :: tokens, count + 1,
        some ⟨false, count, p⟩, [], 0, [-1], false⟩ := by
  have hword : (inList (quote :: cs) p tokens count).word? quote cs =
      (inList (quote :: cs) p tokens count).quotedWord? quote := by
    rcases hquote with rfl | rfl <;> simp [word?, inList, hcolumn, inFlow]
  have hquoted : quoted? quote ((inList (quote :: cs) p tokens count).rest.drop 1) =
      some (text, rest) := h
  rw [hword, quotedWord?, saveKey?_inList hcolumn, hquoted]
  dsimp only
  rw [goTo_append (by exact hread)]
  rfl

/-- A block is read as one word. -/
theorem word?_literal {text : String} (h : blockScalar? false 0 cs = some (text, rest))
    (read : List Char) (hread : '|' :: cs = read ++ rest) (hcolumn : p.column = 2) :
    (inList ('|' :: cs) p tokens count).word? '|' cs =
      some (inList rest (p.behind read) (.scalar .literal text :: tokens) (count + 1)) := by
  have hword : (inList ('|' :: cs) p tokens count).word? '|' cs =
      (inList ('|' :: cs) p tokens count).blockScalarWord? .literal := by
    simp [word?, inList, hcolumn, inFlow]
  have hdrop : (inList ('|' :: cs) p tokens count).dropKey? =
      some (inList ('|' :: cs) p tokens count) := rfl
  have hscalar : blockScalar? (Style.literal == .folded) (inList ('|' :: cs) p tokens count).indent
      ((inList ('|' :: cs) p tokens count).rest.drop 1) = some (text, rest) := h
  rw [hword, blockScalarWord?, hdrop, hscalar]
  dsimp only
  rw [goTo_append (by exact hread)]
  rfl

section

variable {text : List Char} (hc : Neighbours.IsPlain ⟨none, c, text.head?⟩)

include hc

/-- No mark begins a text without quotes. -/
theorem ne_of_isMark {m : Char}
    (hm : ("#,[]&*!|>'\"%@".toList.contains m || ['\x7b', '\x7d', '\x60'].contains m) = true) :
    c ≠ m := by
  rintro rfl
  have hindicates := hc.indicates
  simp only [Neighbours.indicates, hm, Bool.true_or] at hindicates
  cases hindicates

/-- Nor does a sign that stands alone. -/
theorem endsWord_of_sign (hsign : (c == '?' || c == ':' || c == '-') = true) (rest : List Char) :
    endsWord (text ++ '\n' :: rest) = false := by
  have hindicates := hc.indicates
  simp only [Neighbours.indicates, hsign, Bool.true_and, Bool.or_eq_false_iff] at hindicates
  cases text with
  | nil => cases hindicates.2
  | cons d text => simpa [separates, endsWord] using hindicates.2

theorem beginsPlain_of_isPlain (rest : List Char) :
    beginsPlain false (c :: (text ++ '\n' :: rest)) = true := by
  by_cases h : (c == '?' || c == ':' || c == '-') = true
  · have hword := endsWord_of_sign hc h rest
    simp only [Bool.or_eq_true, beq_iff_eq] at h
    rcases h with (rfl | rfl) | rfl
    · simp [beginsPlain, hword]
    · simp [beginsPlain, hword]
    · cases text with
      | nil => cases hword
      | cons d text =>
        have hd : isBlank d = false := by
          simp only [List.cons_append, endsWord, Bool.or_eq_false_iff] at hword
          exact hword.1
        simp [beginsPlain, hd]
  · have hmark {m : Char} := ne_of_isMark hc (m := m)
    simp only [Bool.or_eq_true, beq_iff_eq, not_or] at h
    have hindicator : isIndicator c = false := by
      simp [isIndicator, hmark, h]
    simp [beginsPlain, hc.isWord.1, hc.not_break, hindicator]

/-- What stands in front of a text without quotes does not begin anything else. -/
theorem word?_eq_plainWord? (hcolumn : p.column = 2) :
    (inList (c :: (text ++ '\n' :: rest)) p tokens count).word? c (text ++ '\n' :: rest) =
      (inList (c :: (text ++ '\n' :: rest)) p tokens count).plainWord? := by
  have hmark {m : Char} := ne_of_isMark hc (m := m)
  have hends {m : Char} (hm : (m == '?' || m == ':' || m == '-') = true) :
      (c = m && endsWord (text ++ '\n' :: rest)) = false := by
    by_cases h : c = m
    · simp [endsWord_of_sign hc (h ▸ hm) rest]
    · simp [h]
  simp [word?, inList, hcolumn, inFlow, beginsPlain_of_isPlain hc, hends, hmark]

end

/-- A text without quotes is read as one word. A key may have begun with it. -/
theorem word?_plain {text : List Char} (hcs : ∀ n ∈ neighbours none (c :: text), n.IsPlain)
    (hnext : IsNext rest) (hcolumn : p.column = 2) :
    (inList (c :: (text ++ '\n' :: rest)) p tokens count).word? c (text ++ '\n' :: rest) =
      some ⟨rest, p.behind (c :: text ++ ['\n']),
        .scalar .plain (String.ofList (c :: text)) :: tokens, count + 1, some ⟨false, count, p⟩, [],
        0, [-1], true⟩ := by
  have hfound : plainFrom? (inList (c :: (text ++ '\n' :: rest)) p tokens count).inFlow
      ((inList (c :: (text ++ '\n' :: rest)) p tokens count).indent + 1).toNat
      ⟨[], Gap.none, (inList (c :: (text ++ '\n' :: rest)) p tokens count).position.column⟩
      (inList (c :: (text ++ '\n' :: rest)) p tokens count).rest =
        some (⟨(c :: text).reverse, .broken ['\n'] [], 0⟩, rest) := by
    have hcolumn : (inList (c :: (text ++ '\n' :: rest)) p tokens count).position.column = 2 :=
      hcolumn
    rw [hcolumn]
    exact plainFrom?_plain hcs (getLast?_ne_of_isPlain hcs) hnext
  have hread : c :: (text ++ '\n' :: rest) = c :: text ++ ['\n'] ++ rest := by simp
  rw [word?_eq_plainWord? (isPlain_head hcs) hcolumn, plainWord?, saveKey?_inList hcolumn]
  dsimp only
  rw [hfound]
  dsimp only
  rw [goTo_append (by exact hread), List.reverse_reverse]
  rfl

/-- An entry can be read: its text is one word, and behind it stands what follows. -/
def Leads (x : String) (style : Style) (text rest : List Char) : Prop :=
  ∃ c more, text ++ (lineEndOf text ++ rest) = c :: more ∧ IsWord (c :: more) ∧
    ∀ p tokens count, p.column = 2 →
      ∃ s, (inList (c :: more) p tokens count).word? c more = some s ∧
        s.IsReady rest (.scalar style x :: tokens)

theorem leads_quoted {quote : Char} {x : String} (hquote : quote = '"' ∨ quote = '\'')
    (hnext : IsNext rest)
    (h : quoted? quote (cs ++ quote :: '\n' :: rest) = some (x, '\n' :: rest)) :
    Leads x .quoted (quote :: cs ++ [quote]) rest := by
  have hbreak : isBreak quote = false := by rcases hquote with rfl | rfl <;> rfl
  have htext : quote :: cs ++ [quote] ++ (lineEndOf (quote :: cs ++ [quote]) ++ rest) =
      quote :: (cs ++ quote :: '\n' :: rest) := by
    rw [lineEndOf_of_getLast? List.getLast?_concat hbreak]
    simp
  refine ⟨quote, _, htext, ?_, fun p tokens count hcolumn => ⟨_,
    word?_quoted hquote h (quote :: cs ++ [quote]) (by simp) hcolumn, ?_⟩⟩
  · rintro c hc
    obtain rfl : quote = c := Option.some.inj hc
    rcases hquote with rfl | rfl <;> decide
  · refine isReady_of_lineFeed hnext fun k hk => ?_
    obtain rfl := Option.some.inj hk
    exact ⟨rfl, p.line_le_behind _⟩

theorem leads_plain {x : String} (hambiguous : isAmbiguous x = false)
    (hcs : ∀ n ∈ neighbours none x.toList, n.IsPlain) (hnext : IsNext rest) :
    Leads x .plain x.toList rest := by
  cases hx : x.toList with
  | nil => exact absurd hx (ne_nil_of_isAmbiguous hambiguous)
  | cons c text =>
    rw [hx] at hcs
    have hend : lineEndOf (c :: text) = ['\n'] := by
      obtain ⟨n, hn, hlast, -⟩ := exists_neighbours_of_getLast? none List.getLast?_cons
      exact lineEndOf_of_getLast? List.getLast?_cons (hlast ▸ (hcs n hn).not_break)
    have htext : c :: text ++ (lineEndOf (c :: text) ++ rest) = c :: (text ++ '\n' :: rest) := by
      rw [hend]
      simp
    refine ⟨c, _, htext, ?_, fun p tokens count hcolumn => ⟨_, word?_plain hcs hnext hcolumn, ?_⟩⟩
    · rintro d hd
      obtain rfl : c = d := Option.some.inj hd
      exact (isPlain_head hcs).isWord
    · rw [← hx, String.ofList_toList]
      obtain ⟨hcolumn, hline⟩ := p.behind_break (x.toList) (b := '\n') rfl
      refine isReady_of_next hnext hcolumn fun k hk => ?_
      obtain rfl := Option.some.inj hk
      exact ⟨rfl, hline⟩

theorem leads_literal {x : String} (hne : x.toList ≠ [])
    (hprint : ∀ c ∈ x.toList, isPrintable c = true) (hnext : IsNext rest) :
    Leads x .literal ('|' :: literalHints x.toList ++ '\n' :: literalChars 2 true x.toList)
      rest := by
  have hend : lineEndOf ('|' :: literalHints x.toList ++ '\n' :: literalChars 2 true x.toList) =
      lineEndOf x.toList := by
    have hchars : '\n' :: literalChars 2 true x.toList ≠ [] := List.cons_ne_nil _ _
    have hbody : literalChars 2 true x.toList ≠ [] := fun h =>
      hne (List.getLast?_eq_none_iff.mp (by rw [← getLast?_literalChars true, h]; rfl))
    rw [lineEndOf_append _ hchars, ← List.singleton_append, lineEndOf_append _ hbody,
      lineEndOf_literalChars]
  have hscalar := blockScalar?_literal hne hprint hnext
  rw [String.ofList_toList] at hscalar
  obtain ⟨before, b, hread, hb⟩ := exists_append_lineEndOf
    ('|' :: literalHints x.toList ++ '\n' :: literalChars 2 true x.toList)
  rw [hend] at hread
  refine ⟨'|', _, by rw [hend]; simp, ?_, fun p tokens count hcolumn => ⟨_,
    word?_literal hscalar (before ++ [b]) ?_ hcolumn, ?_⟩⟩
  · rintro c hc
    obtain rfl : '|' = c := Option.some.inj hc
    decide
  · rw [← hread]
    simp
  · exact isReady_of_next hnext (p.behind_break before hb).1 fun k hk => absurd hk (by simp)

/-- What is written for a text is read as one word, which leads to the next entry. -/
theorem leads_written {x : String} {style : Style} (h : Written x style cs)
    (hnext : IsNext rest) : Leads x style cs rest := by
  cases h with
  | plain hambiguous hcs => exact leads_plain hambiguous hcs hnext
  | singleQuoted hcs =>
    refine leads_quoted (.inr rfl) hnext ?_
    rw [quoted?_singleQuoted hcs (by simp), String.ofList_toList]
  | doubleQuoted =>
    refine leads_quoted (.inl rfl) hnext ?_
    rw [quoted?_doubleQuoted, String.ofList_toList]
  | literal hne hprint => exact leads_literal hne hprint hnext

/-! ## The ends of a list -/

/-- A document that begins with a hyphen is read as a list. -/
theorem finish?_start (fuel : Nat) :
    (start ('-' :: ' ' :: cs)).finish? (fuel + 1) =
      (inList ('-' :: ' ' :: cs) ⟨0, 0, 0⟩ [.blockSequenceStart] 1).finish? (fuel + 1) := by
  have hnext : IsNext ('-' :: ' ' :: cs) := .inr ⟨_, rfl⟩
  have hlist := dropStaleKeys?_of_next (s := inList ('-' :: ' ' :: cs) ⟨0, 0, 0⟩
    [.blockSequenceStart] 1) hnext rfl fun k hk => absurd hk (by simp [inList])
  have hstart := dropStaleKeys?_of_next (s := start ('-' :: ' ' :: cs)) hnext rfl fun k hk =>
    absurd hk (by simp [start])
  have hdedent (column : Nat) : (start ('-' :: ' ' :: cs)).dedentTo column =
      start ('-' :: ' ' :: cs) := rfl
  have hrest : (start ('-' :: ' ' :: cs)).rest = '-' :: ' ' :: cs := rfl
  have hkey : { start ('-' :: ' ' :: cs) with key := none } = start ('-' :: ' ' :: cs) := rfl
  rw [finish?_word hlist, word?_hyphen rfl, finish?, hstart, hkey]
  simp only [hdedent, hrest, word?_start]
  rfl

/-- Where the text is over, the list ends. -/
theorem finish?_end (h : s.IsReady [] tokens) (fuel : Nat) :
    s.finish? (fuel + 1) = some (tokens.reverse ++ [.blockEnd]) := by
  obtain ⟨p, count, -, hready⟩ := h
  have hclose : ((inList [] p tokens count).dedentTo (-1)).dropKey? =
      some ⟨[], p, .blockEnd :: tokens, count + 1, none, [], -1, [], true⟩ := rfl
  have hrest : (inList [] p tokens count).rest = [] := rfl
  rw [finish?, hready]
  simp only [dedentTo_inList, hrest, hclose, Option.map_some, List.reverse_cons]

end Layout

end Yaml

end Pipeline
