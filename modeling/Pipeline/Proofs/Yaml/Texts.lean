import Pipeline.Proofs.RoundTrip.Source
import Pipeline.Proofs.Yaml.Layout

/-!
# Lists of texts as documents

* `Yaml.write_texts`: a list of texts is written as one entry for each text.
* `Yaml.tokens?_write_texts`, `Yaml.Node.ofText?_write_texts`: the words and the value of the
  document.
* `Yaml.texts?_sequence`: so the texts are read back.
-/

namespace Pipeline

namespace Yaml

/-- An entry of a list: a hyphen and the text, up to the end of the last line. -/
def entry (x : String) : String := endLine 0 ("- " ++ scalarText false 2 x)

/-- The end of the last line depends on nothing in front of what is written last. -/
theorem endLine_append (indent : Nat) (s : String) {t : String} (h : t ≠ "") :
    endLine indent (s ++ t) = s ++ endLine indent t := by
  obtain ⟨c, hc⟩ : ∃ c, t.toList.getLast? = some c :=
    Option.ne_none_iff_exists'.mp fun hn =>
      h (String.toList_eq_nil_iff.mp (List.getLast?_eq_none_iff.mp hn))
  rw [endLine, endLine, String.toList_append, List.getLast?_append, hc, Option.some_or,
    String.append_assoc]

theorem itemsText_ne (x : String) (xs : List String) :
    blockText.itemsText 0 ((x :: xs).map .str) ≠ "" := by
  intro h
  have h := congrArg String.toList h
  cases xs <;> simp [blockText.itemsText, endLine] at h

theorem endLine_itemsText (x : String) (xs : List String) :
    endLine 0 (blockText.itemsText 0 ((x :: xs).map .str)) =
      String.join ((x :: xs).map entry) := by
  induction xs generalizing x with
  | nil =>
    rw [List.map_singleton, List.map_singleton, String.join_cons, String.join_nil,
      String.append_empty]
    rfl
  | cons y ys ih =>
    have hitems : blockText.itemsText 0 ((x :: y :: ys).map .str) =
        entry x ++ blockText.itemsText 0 ((y :: ys).map .str) := rfl
    rw [hitems, endLine_append 0 (entry x) (itemsText_ne y ys), ih, List.map_cons (a := x),
      String.join_cons]

/-- A list of texts is written as one entry for each text. -/
theorem write_texts (x : String) (xs : List String) :
    write (.texts (x :: xs)) = String.join ((x :: xs).map entry) :=
  endLine_itemsText x xs

/-! ## The words of the document -/

/-- The characters of the entries. -/
def entryChars (xs : List String) : List Char := xs.flatMap fun x => (entry x).toList

/-- The words of the entries. -/
def entryTokens (xs : List String) : List Token :=
  xs.flatMap fun x => [.blockEntry, .scalar (styleOf x) x]

theorem length_entryTokens (xs : List String) : (entryTokens xs).length = 2 * xs.length := by
  induction xs with
  | nil => rfl
  | cons x xs ih =>
    have hlength : (entryTokens (x :: xs)).length = (entryTokens xs).length + 2 := rfl
    rw [hlength, ih, List.length_cons, Nat.mul_succ]

theorem toList_endLine (s : String) : (endLine 0 s).toList = s.toList ++ lineEndOf s.toList := by
  rw [endLine, String.toList_append, lineEndOf]
  split <;> rfl

theorem toList_entry (x : String) :
    (entry x).toList = '-' :: ' ' :: ((scalarText false 2 x).toList ++
      lineEndOf (scalarText false 2 x).toList) := by
  have htext : ("- " ++ scalarText false 2 x).toList =
      ['-', ' '] ++ (scalarText false 2 x).toList := String.toList_append
  rw [entry, toList_endLine, htext, lineEndOf_append _ (written x).ne_nil, List.append_assoc]
  rfl

theorem entryChars_cons (x : String) (xs : List String) :
    entryChars (x :: xs) = '-' :: ' ' :: ((scalarText false 2 x).toList ++
      (lineEndOf (scalarText false 2 x).toList ++ entryChars xs)) := by
  rw [entryChars, List.flatMap_cons, toList_entry]
  simp [entryChars]

theorem isNext_entryChars (xs : List String) : IsNext (entryChars xs) := by
  cases xs with
  | nil => exact .inl rfl
  | cons x xs => exact .inr ⟨_, entryChars_cons x xs⟩

/-- The entries are read one after the other. -/
theorem finish?_entryChars (xs : List String) {s : Layout} {tokens : List Token}
    (h : s.IsReady (entryChars xs) tokens) (fuel : Nat) :
    s.finish? (fuel + 2 * xs.length + 1) =
      some (tokens.reverse ++ entryTokens xs ++ [.blockEnd]) := by
  induction xs generalizing s tokens with
  | nil =>
    rw [Layout.finish?_end h]
    simp [entryTokens]
  | cons x xs ih =>
    obtain ⟨c, more, htext, hword, hstep⟩ :=
      Layout.leads_written (written x) (isNext_entryChars xs)
    rw [entryChars_cons, htext] at h
    obtain ⟨p, count, hcolumn, hfinish⟩ := Layout.finish?_entry h hword (fuel + 2 * xs.length + 1)
    obtain ⟨s', hs', hready⟩ := hstep p (.blockEntry :: tokens) count hcolumn
    have hfuel : fuel + 2 * (x :: xs).length + 1 = fuel + 2 * xs.length + 1 + 2 := by
      rw [List.length_cons]
      omega
    rw [hfuel, hfinish, hs', Option.bind_some, ih hready]
    simp [entryTokens]

/-! ## Characters -/

theorem admissible_of_isPrintable {c : Char} (h : isPrintable c = true) : admissible c = true := by
  simp only [isPrintable, admissible, Bool.or_eq_true, Bool.and_eq_true, beq_iff_eq,
    decide_eq_true_eq] at h ⊢
  omega

/-- There are no line breaks in a document that are to be unified. -/
theorem unifyBreaks_eq {cs : List Char} (h : cs.all isPrintable = true) : unifyBreaks cs = cs := by
  induction cs with
  | nil => rfl
  | cons c cs ih =>
    rw [List.all_cons, Bool.and_eq_true] at h
    have hreturn : c ≠ '\r' := by
      rintro rfl
      exact absurd h.1 (by decide)
    have hnextLine : c.toNat ≠ 0x85 := fun hn => by
      simp [isPrintable, hn] at h
    rw [unifyBreaks, ih h.2, if_neg (by simp [hreturn, hnextLine])]
    exact fun _ hc _ => hreturn hc

theorem all_isPrintable_entryChars (xs : List String) :
    (entryChars xs).all isPrintable = true := by
  have hend (cs : List Char) : (lineEndOf cs).all isPrintable = true := by
    rw [lineEndOf]
    split <;> rfl
  rw [entryChars, List.all_flatMap, List.all_eq_true]
  intro x _
  rw [toList_entry, List.all_cons, List.all_cons, List.all_append,
    (written x).all_isPrintable, hend]
  rfl

theorem two_mul_length_le (xs : List String) : 2 * xs.length ≤ (entryChars xs).length := by
  induction xs with
  | nil => exact Nat.le_refl 0
  | cons x xs ih =>
    rw [entryChars_cons]
    simp only [List.length_cons, List.length_append]
    omega

/-- The words of a list of texts. -/
theorem tokens?_write_texts (x : String) (xs : List String) :
    tokens? (write (.texts (x :: xs))) =
      some (.blockSequenceStart :: entryTokens (x :: xs) ++ [.blockEnd]) := by
  have hchars : (write (.texts (x :: xs))).toList = entryChars (x :: xs) := by
    rw [write_texts, String.toList_join, List.flatMap_map]
    rfl
  have hmark : dropByteOrderMark (entryChars (x :: xs)) = entryChars (x :: xs) := by
    rw [entryChars_cons]
    rfl
  have hadmissible : (entryChars (x :: xs)).all admissible = true :=
    List.all_eq_true.mpr fun c hc =>
      admissible_of_isPrintable (List.all_eq_true.mp (all_isPrintable_entryChars _) c hc)
  obtain ⟨fuel, hfuel⟩ := Nat.exists_eq_add_of_le' (two_mul_length_le (x :: xs))
  have hready : Layout.IsReady
      (.inList (entryChars (x :: xs)) ⟨0, 0, 0⟩ [.blockSequenceStart] 1) (entryChars (x :: xs))
      [.blockSequenceStart] :=
    Layout.isReady_of_next (isNext_entryChars _) rfl fun k hk => absurd hk (by simp)
  have hstart : (Layout.start (entryChars (x :: xs))).finish? (fuel + 2 * (x :: xs).length + 1) =
      (Layout.inList (entryChars (x :: xs)) ⟨0, 0, 0⟩ [.blockSequenceStart] 1).finish?
        (fuel + 2 * (x :: xs).length + 1) := by
    rw [entryChars_cons]
    exact Layout.finish?_start _
  rw [tokens?, hchars, hmark]
  dsimp only
  rw [if_pos hadmissible, unifyBreaks_eq (all_isPrintable_entryChars _), hfuel, hstart,
    finish?_entryChars _ hready]
  rfl

/-! ## The value of the document -/

namespace Tree

/-- A text as a value that is written. -/
def ofText (x : String) : NamedTree := .scalar noProperties (styleOf x) x

theorem node?_scalar (handles : Handles) (fuel : Nat) (style : Style) (text : String)
    (rest : List Token) :
    node? handles (fuel + 1) true false (.scalar style text :: rest) =
      some (.scalar noProperties style text, rest) := by
  rw [node?.eq_def]
  rfl

theorem blockItems?_entryTokens (handles : Handles) (fuel : Nat) (xs : List String)
    (rest : List Token) :
    blockItems? handles (fuel + xs.length + 2) (entryTokens xs ++ .blockEnd :: rest) =
      some (xs.map ofText, rest) := by
  induction xs with
  | nil => rw [blockItems?.eq_def]; rfl
  | cons x xs ih =>
    have htokens : entryTokens (x :: xs) ++ .blockEnd :: rest =
        .blockEntry :: .scalar (styleOf x) x :: (entryTokens xs ++ .blockEnd :: rest) := rfl
    have hends : endsEntry (.scalar (styleOf x) x :: (entryTokens xs ++ .blockEnd :: rest)) =
        false := rfl
    have hfuel : fuel + (x :: xs).length + 2 = fuel + xs.length + 2 + 1 := by
      rw [List.length_cons]
      omega
    rw [htokens, hfuel, blockItems?.eq_def]
    simp only [hends, Bool.false_eq_true, if_false, node?_scalar, ih, Option.map_some]
    rfl

theorem node?_blockSequence (handles : Handles) (fuel : Nat) (rest : List Token) :
    node? handles (fuel + 1) true false (.blockSequenceStart :: rest) =
      (blockItems? handles fuel rest).map fun (items, rest) =>
        (.sequence noProperties items, rest) := by
  rw [node?.eq_def]
  rfl

/-- The words of a list of texts are those of a sequence. -/
theorem ofTokens?_entryTokens (xs : List String) :
    ofTokens? (.blockSequenceStart :: entryTokens xs ++ [.blockEnd]) =
      some (.sequence noProperties (xs.map ofText)) := by
  obtain ⟨fuel, hfuel⟩ : ∃ fuel,
      steps (Token.blockSequenceStart :: (entryTokens xs ++ [.blockEnd])).length =
        fuel + xs.length + 2 + 1 := by
    refine ⟨7 * xs.length + 13, ?_⟩
    rw [steps, List.length_cons, List.length_append, length_entryTokens, List.length_singleton]
    omega
  have hnode : node? defaultHandles
      (steps (Token.blockSequenceStart :: (entryTokens xs ++ [.blockEnd])).length) true false
      (.blockSequenceStart :: (entryTokens xs ++ [.blockEnd])) =
        some (.sequence noProperties (xs.map ofText), []) := by
    rw [hfuel, node?_blockSequence, blockItems?_entryTokens]
    rfl
  rw [List.cons_append, ofTokens?]
  simp only [isMarked, List.isEmpty_cons, Bool.false_eq_true, if_false, hnode]
  rfl

/-- A text with no anchor stays what it is where anchors are numbered. -/
theorem numberItems?_ofText (names : Names) (xs : List String) :
    numberItems? names (xs.map ofText) =
      some (xs.map fun x => .scalar ⟨none, none⟩ (styleOf x) x, names) := by
  induction xs with
  | nil => rfl
  | cons x xs ih =>
    have hx : number? names (ofText x) = some (.scalar ⟨none, none⟩ (styleOf x) x, names) := rfl
    rw [List.map_cons, numberItems?, hx]
    simp only [ih]
    rfl

end Tree

namespace Node

/-- A text as a value. -/
def ofText (x : String) : Node := .scalar (styleOf x) none x

theorem mapCount_resolve (table : List (Nat × NumberedTree)) (depth count : Nat)
    (xs : List String) :
    mapCount (resolve table depth []) count
        (xs.map fun x => Tree.scalar ⟨none, none⟩ (styleOf x) x) =
      (xs.map ofText, count) := by
  induction xs with
  | nil => rfl
  | cons x xs ih =>
    have hx : resolve table depth [] count (.scalar ⟨none, none⟩ (styleOf x) x) =
        (ofText x, count) := by
      rw [resolve.eq_def]
      rfl
    rw [List.map_cons, mapCount, hx]
    simp only [ih]
    rfl

theorem resolve_sequence (table : List (Nat × NumberedTree)) (depth count : Nat)
    (items : List NumberedTree) :
    resolve table (depth + 1) [] count (.sequence ⟨none, none⟩ items) =
      (.sequence none (mapCount (resolve table depth []) count items).1,
        (mapCount (resolve table depth []) count items).2) := by
  rw [resolve.eq_def]
  rfl

theorem ofTree?_sequence (xs : List String) :
    ofTree? (.sequence Tree.noProperties (xs.map Tree.ofText)) =
      some (.sequence none (xs.map ofText)) := by
  have hnumber : Tree.number? [] (.sequence Tree.noProperties (xs.map Tree.ofText)) =
      some (.sequence ⟨none, none⟩ (xs.map fun x => .scalar ⟨none, none⟩ (styleOf x) x), []) := by
    simp only [Tree.number?, Tree.setAnchor, Tree.noProperties, Tree.numberItems?_ofText]
    rfl
  rw [ofTree?, hnumber, Option.map_some]
  dsimp only
  rw [depthLimit, resolve_sequence, mapCount_resolve]

/-- A list of texts is read back as the sequence of the texts. -/
theorem ofText?_write_texts (xs : List String) :
    ofText? (write (.texts xs)) = some (.sequence none (xs.map ofText)) := by
  cases xs with
  | nil => cbv
  | cons x xs =>
    rw [ofText?, tokens?_write_texts, Option.bind_some, Tree.ofTokens?_entryTokens,
      Option.bind_some, ofTree?_sequence]

end Node

/-! ## Texts -/

/-- A plain scalar that is a text is the text that it spells. -/
theorem eq_of_settlePlain? {x y : String} (h : settlePlain? x = some (.str y)) : y = x := by
  rw [settlePlain?] at h
  split at h
  · cases h
  · split at h
    · cases h
    · split at h
      · cases h
      · cases h
      · split at h
        · cases h
        · cases h
          rfl

theorem settlePlain?_of_isAmbiguous {x : String} (h : isAmbiguous x = false) :
    settlePlain? x = some (.str x) := by
  rw [isAmbiguous] at h
  split at h
  · rename_i y hy
    rw [hy, eq_of_settlePlain? hy]
  · cases h

/-- What is written for a text stands for a text where its spelling tells its kind. -/
theorem settle?_styleOf (x : String) : settle? (styleOf x) none x = some (.str x) := by
  have h := written x
  generalize styleOf x = style, (scalarText false 2 x).toList = cs at h
  cases h with
  | plain hambiguous => exact settlePlain?_of_isAmbiguous hambiguous
  | singleQuoted => rfl
  | doubleQuoted => rfl
  | literal => rfl

theorem text?_ofText (settled : Bool) (x : String) :
    Source.text? (.yaml settled (Node.ofText x)) = some x := by
  cases settled with
  | false => rfl
  | true => simp only [Source.text?, Source.settledScalar?, Node.ofText, settle?_styleOf]

/-- The texts of a list are read back from its document. -/
theorem texts?_sequence (settled : Bool) (xs : List String) :
    Source.texts? (.yaml settled (.sequence none (xs.map Node.ofText))) = some xs := by
  rw [Source.texts?, Source.list?, Source.items?, Option.bind_some, List.map_map]
  exact Source.mapM_map_read fun x _ => text?_ofText settled x

end Yaml

end Pipeline
