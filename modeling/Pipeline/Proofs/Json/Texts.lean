import Pipeline.Proofs.Json.Quoted

/-!
# Lists of texts over several lines

* `Json.tokensFrom?_prettyItems`: what is written for the items of a list of texts is read as the
  texts, with a comma between each two.
* `Json.ofText?_pretty_texts`: so a list of texts is read back.
-/

namespace Pipeline

namespace Json

variable {c : Char} {cs rest : List Char}

/-! ## Words -/

/-- A character that is a word by itself. -/
theorem tokensFrom?_mark {t : Token} (h : beginToken? c = some ([t], .between)) :
    tokensFrom? .between (c :: rest) = (tokensFrom? .between rest).map (t :: ·) := by
  simp [tokensFrom?, tokenStep?, h]

/-- What may stand between words is passed. -/
theorem tokensFrom?_gap (rest : List Char) (h : ∀ c ∈ cs, isGap c = true) :
    tokensFrom? .between (cs ++ rest) = tokensFrom? .between rest := by
  induction cs with
  | nil => rfl
  | cons c cs ih =>
    obtain ⟨hc, hcs⟩ := List.forall_mem_cons.mp h
    rw [List.cons_append, tokensFrom?_cons (by rw [tokenStep?, beginToken?, if_pos hc]), ih hcs]

theorem tokensFrom?_lineBreak (level : Nat) (rest : List Char) :
    tokensFrom? .between ((lineBreak level).toList ++ rest) = tokensFrom? .between rest := by
  refine tokensFrom?_gap rest fun c hc => ?_
  simp only [lineBreak, String.toList_append, String.toList_ofList, List.mem_append] at hc
  rcases hc with hc | hc
  · obtain rfl := List.mem_singleton.mp hc
    rfl
  · rw [List.eq_of_mem_replicate hc]
    rfl

/-- The words of the texts of a list, with a comma before each. -/
def followers (xs : List String) : List Token := xs.flatMap fun x => [.comma, .scalar (.str x)]

theorem tokensFrom?_prettyItems (level : Nat) (x : String) (xs : List String) (rest : List Char) :
    tokensFrom? .between ((prettyAt.prettyItems level ((x :: xs).map .str)).toList ++ rest) =
      (tokensFrom? .between rest).map (.scalar (.str x) :: followers xs ++ ·) := by
  induction xs generalizing x with
  | nil =>
    have hitems : prettyAt.prettyItems level ([x].map .str) = lineBreak level ++ quoted x := rfl
    rw [hitems, String.toList_append, List.append_assoc, tokensFrom?_lineBreak,
      tokensFrom?_quoted]
    rfl
  | cons y xs ih =>
    have hitems : prettyAt.prettyItems level ((x :: y :: xs).map .str) =
        lineBreak level ++ quoted x ++ "," ++ prettyAt.prettyItems level ((y :: xs).map .str) := rfl
    have hcomma (cs : List Char) : tokensFrom? .between (",".toList ++ cs) =
        (tokensFrom? .between cs).map (.comma :: ·) := tokensFrom?_mark rfl
    simp only [hitems, String.toList_append, List.append_assoc]
    rw [tokensFrom?_lineBreak, tokensFrom?_quoted, hcomma, ih]
    simp [followers, Function.comp_def]

/-! ## Lists -/

/-- The texts behind the first one become items of the innermost list, one after the other. -/
theorem foldlM_followers (read : List Json) (frames : List Frame) (xs : List String)
    (ts : List Token) :
    (followers xs ++ ts).foldlM ReadState.step? ⟨.items read :: frames, .commaOrEnd, none⟩ =
      ts.foldlM ReadState.step?
        ⟨.items ((xs.map .str).reverse ++ read) :: frames, .commaOrEnd, none⟩ := by
  induction xs generalizing read with
  | nil => rfl
  | cons x xs ih =>
    have hx : (followers (x :: xs) ++ ts).foldlM ReadState.step?
        ⟨.items read :: frames, .commaOrEnd, none⟩ = (followers xs ++ ts).foldlM ReadState.step?
        ⟨.items (.str x :: read) :: frames, .commaOrEnd, none⟩ := rfl
    rw [hx, ih]
    simp

/-- The words of a list of texts. -/
def textTokens : List String → List Token
  | [] => [.openBracket, .closeBracket]
  | x :: xs => .openBracket :: .scalar (.str x) :: followers xs ++ [.closeBracket]

/-- The words of a list of texts spell the list. -/
theorem ofTokens?_textTokens (xs : List String) : ofTokens? (textTokens xs) = some (.texts xs) := by
  cases xs with
  | nil => rfl
  | cons x xs =>
    have hopen : (textTokens (x :: xs)).foldlM ReadState.step? ReadState.start =
        (followers xs ++ [Token.closeBracket]).foldlM ReadState.step?
          ⟨[.items [.str x]], .commaOrEnd, none⟩ := rfl
    rw [ofTokens?, hopen, foldlM_followers]
    simp [ReadState.step?, ReadState.complete, texts]

theorem tokensFrom?_pretty_texts (xs : List String) (rest : List Char) :
    tokensFrom? .between ((texts xs).pretty.toList ++ rest) =
      (tokensFrom? .between rest).map (textTokens xs ++ ·) := by
  have hopen (cs : List Char) : tokensFrom? .between ("[".toList ++ cs) =
      (tokensFrom? .between cs).map (.openBracket :: ·) := tokensFrom?_mark rfl
  have hclose (cs : List Char) : tokensFrom? .between ("]".toList ++ cs) =
      (tokensFrom? .between cs).map (.closeBracket :: ·) := tokensFrom?_mark rfl
  cases xs with
  | nil =>
    have hpretty : (texts []).pretty = "[" ++ "]" := rfl
    rw [hpretty, String.toList_append, List.append_assoc, hopen, hclose]
    simp [textTokens, Function.comp_def]
  | cons x xs =>
    have hpretty : (texts (x :: xs)).pretty =
        "[" ++ prettyAt.prettyItems 1 ((x :: xs).map .str) ++ lineBreak 0 ++ "]" := rfl
    simp only [hpretty, String.toList_append, List.append_assoc]
    rw [hopen, tokensFrom?_prettyItems, tokensFrom?_lineBreak, hclose]
    simp [textTokens, Function.comp_def]

/-- A list of texts over several lines, with blanks or line breaks behind it, is read as the
list. -/
theorem ofText?_pretty_texts (xs : List String) {s : String}
    (h : ∀ c ∈ s.toList, isGap c = true) :
    ofText? ((texts xs).pretty ++ s) = some (.texts xs) := by
  have hgap : tokensFrom? .between s.toList = some [] := by
    simpa [tokensFrom?] using tokensFrom?_gap [] h
  rw [ofText?, tokens?, String.toList_append, tokensFrom?_pretty_texts, hgap, Option.map_some,
    List.append_nil, Option.bind_some, ofTokens?_textTokens]

end Json

end Pipeline
