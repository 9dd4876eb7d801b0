import Pipeline.Json.Reader
import Pipeline.Json.Writer
import Pipeline.Proofs.Text.Number

/-!
# Strings in quotes

* `Json.tokensFrom?_escapedChar`: what is written for a character of a string is read as the
  character.
* `Json.tokensFrom?_quoted`, `Json.ofText?_quoted`: so a string in quotes is read as the string.
-/

namespace Pipeline

namespace Json

variable {read cs rest : List Char} {c : Char}

/-- Where no word ends, the reader goes on with what follows. -/
theorem tokensFrom?_cons {mode next : TokenMode} (h : tokenStep? mode c = some ([], next)) :
    tokensFrom? mode (c :: cs) = tokensFrom? next cs := by
  cases mode <;> simp [tokensFrom?, h]

theorem tokensFrom?_backslash :
    tokensFrom? (.string read) ('\\' :: cs) = tokensFrom? (.escape read none) cs :=
  tokensFrom?_cons rfl

/-- The last digits of a code end it, and the character of the code is read. -/
theorem tokensFrom?_code {value digits n : Nat} {ds : List Char} (hlen : digits + ds.length = 4)
    (hne : ds ≠ []) (h : Text.digitsFrom? 16 value ds = some n) (hn : n < 0xD800) :
    tokensFrom? (.code read none value digits) (ds ++ rest) =
      tokensFrom? (.string (Char.ofNat n :: read)) rest := by
  induction ds generalizing value digits with
  | nil => exact absurd rfl hne
  | cons d ds ih =>
    rw [Text.digitsFrom?] at h
    cases hd : Text.digit? 16 d with
    | none => rw [hd] at h; cases h
    | some x =>
      rw [hd] at h
      cases ds with
      | nil =>
        obtain rfl : value * 16 + x = n := Option.some.inj h
        have hlast : digits = 3 := by simpa using hlen
        have hafter : afterCode? read none (value * 16 + x) =
            some (.string (Char.ofNat (value * 16 + x) :: read)) := by
          simp only [afterCode?]
          rw [if_neg (by omega), if_neg (by omega)]
        exact tokensFrom?_cons (by simp [tokenStep?, hd, hlast, hafter])
      | cons e ds =>
        rw [List.length_cons, List.length_cons] at hlen
        have hrest : digits + 1 + (e :: ds).length = 4 := by rw [List.length_cons]; omega
        rw [List.cons_append, ← ih hrest (List.cons_ne_nil e ds) h]
        exact tokensFrom?_cons (by simp [tokenStep?, hd]; omega)

/-- The characters that are written as a backslash with one character behind it. -/
def shortEscapes : List (Char × Char) :=
  [('"', '"'), ('\\', '\\'), ('\n', 'n'), ('\r', 'r'), ('\t', 't'), (Char.ofNat 8, 'b'),
   (Char.ofNat 12, 'f')]

theorem escapedChar_of_mem {d : Char} (h : (c, d) ∈ shortEscapes) :
    escapedChar c = ['\\', d] ∧ escape? d = some c ∧ d ≠ 'u' := by
  have table : ∀ e ∈ shortEscapes,
      escapedChar e.1 = ['\\', e.2] ∧ escape? e.2 = some e.1 ∧ e.2 ≠ 'u' := by
    decide
  exact table (c, d) h

/-- Of the other characters, those that are no control characters are written as they are. -/
theorem escapedChar_of_not_mem (h : c ∉ shortEscapes.map Prod.fst) :
    c ≠ '"' ∧ c ≠ '\\' ∧
      escapedChar c =
        if c.toNat < 32 then '\\' :: 'u' :: Text.hexadecimal 4 c.toNat else [c] := by
  have hnat {n : Nat} (hn : c ≠ Char.ofNat n) : c.toNat ≠ n := by
    rintro rfl
    exact hn (Char.ofNat_toNat c).symm
  simp only [shortEscapes, List.map_cons, List.map_nil, List.mem_cons, List.not_mem_nil, or_false,
    not_or] at h
  obtain ⟨hquote, hbackslash, hbreak, hreturn, htab, hback, hfeed⟩ := h
  exact ⟨hquote, hbackslash,
    by simp [escapedChar, hquote, hbackslash, hbreak, hreturn, htab, hnat hback, hnat hfeed]⟩

/-- What is written for a character of a string is read as the character. -/
theorem tokensFrom?_escapedChar :
    tokensFrom? (.string read) (escapedChar c ++ rest) =
      tokensFrom? (.string (c :: read)) rest := by
  by_cases hshort : c ∈ shortEscapes.map Prod.fst
  · obtain ⟨⟨_, d⟩, hd, rfl⟩ := List.mem_map.mp hshort
    obtain ⟨hc, hd, hu⟩ := escapedChar_of_mem hd
    rw [hc, List.cons_append, tokensFrom?_backslash]
    exact tokensFrom?_cons (by simp [tokenStep?, hd, hu])
  · obtain ⟨hquote, hbackslash, hc⟩ := escapedChar_of_not_mem hshort
    rw [hc]
    split
    · rename_i hcontrol
      have hlen : (Text.hexadecimal 4 c.toNat).length = 4 := Text.length_hexadecimal 4 c.toNat
      have hdigits : Text.digitsFrom? 16 0 (Text.hexadecimal 4 c.toNat) = some c.toNat :=
        Text.digitsFrom?_hexadecimal (by omega)
      have hcode : tokensFrom? (.escape read none) ('u' :: (Text.hexadecimal 4 c.toNat ++ rest)) =
          tokensFrom? (.code read none 0 0) (Text.hexadecimal 4 c.toNat ++ rest) :=
        tokensFrom?_cons rfl
      rw [List.cons_append, List.cons_append, tokensFrom?_backslash, hcode,
        tokensFrom?_code (by rw [hlen]) (List.ne_nil_of_length_pos (by omega)) hdigits (by omega),
        Char.ofNat_toNat]
    · rename_i hcontrol
      exact tokensFrom?_cons (by simp [tokenStep?, hquote, hbackslash, hcontrol])

theorem tokensFrom?_flatMap :
    tokensFrom? (.string read) (cs.flatMap escapedChar ++ '"' :: rest) =
      (tokensFrom? .between rest).map
        (.scalar (.str (String.ofList (read.reverse ++ cs))) :: ·) := by
  induction cs generalizing read with
  | nil => simp [tokensFrom?, tokenStep?]
  | cons c cs ih => rw [List.flatMap_cons, List.append_assoc, tokensFrom?_escapedChar, ih]; simp

/-- A string in quotes is one word, and what follows is read on its own. -/
theorem tokensFrom?_quoted (s : String) (rest : List Char) :
    tokensFrom? .between ((quoted s).toList ++ rest) =
      (tokensFrom? .between rest).map (.scalar (.str s) :: ·) := by
  have hchars : (quoted s).toList ++ rest =
      '"' :: (s.toList.flatMap escapedChar ++ '"' :: rest) := by
    simp [quoted]
  have hopen : tokensFrom? .between ('"' :: (s.toList.flatMap escapedChar ++ '"' :: rest)) =
      tokensFrom? (.string []) (s.toList.flatMap escapedChar ++ '"' :: rest) :=
    tokensFrom?_cons rfl
  rw [hchars, hopen, tokensFrom?_flatMap]
  simp

/-- A string in quotes is read as the string. -/
theorem ofText?_quoted (s : String) : ofText? (quoted s) = some (.str s) := by
  have htokens : tokens? (quoted s) = some [.scalar (.str s)] := by
    simpa [tokens?, tokensFrom?] using tokensFrom?_quoted s []
  rw [ofText?, htokens]
  rfl

end Json

end Pipeline
