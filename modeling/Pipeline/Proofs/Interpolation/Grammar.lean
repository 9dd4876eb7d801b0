import Mathlib.Data.List.Basic
import Pipeline.Proofs.Interpolation
import Pipeline.Proofs.Text.Split

/-!
# Which texts can be read, and where the others are blamed

* `IsToken`: an escape, a character that stands for itself, or a variable between its marks.
* `IsRun`: texts that are put together from tokens.
* `IsToken.append_inj`: a text begins with one token at the most, so the longest run at its start
  is found by taking tokens off as long as there are any (`IsRun.isPrefix_of_stuck`).
* `IsToken.readThrough`, `IsRun.readThrough`: behind a token or a run, reading fails as what
  follows makes it fail; the position has grown by the bytes that were read.
* `parse_outcome`: reading fails at the end of the longest run at the start of a text, and what
  stands there decides how.
-/

namespace Pipeline

namespace Interpolation

variable {read cs : List Char} {position : Nat}

/-! ## Tokens and runs -/

/-- The shortest texts that can be read by themselves. -/
inductive IsToken : List Char → Prop where
  /-- A backslash and any character behind it. -/
  | escape (c : Char) : IsToken ['\\', c]
  /-- A character that stands for itself. -/
  | plain {c : Char} (hesc : c ≠ '\\') (hat : c ≠ '@') : IsToken [c]
  /-- A variable between its marks. -/
  | reference {name : String} (h : IsName name) : IsToken ('@' :: name.toList ++ ['@'])

/-- A text that is put together from tokens. -/
inductive IsRun : List Char → Prop where
  | nil : IsRun []
  | cons {token rest : List Char} (ht : IsToken token) (hr : IsRun rest) : IsRun (token ++ rest)

/-- `u` is the longest run with which a text begins. -/
structure LongestRun (u cs : List Char) : Prop where
  isRun : IsRun u
  start : u <+: cs
  longest : ∀ v, v <+: cs → IsRun v → v.length ≤ u.length

/-- No token stands at the start of the text. -/
def Stuck (cs : List Char) : Prop := ∀ token rest, IsToken token → cs ≠ token ++ rest

theorem IsToken.length_pos {token : List Char} (h : IsToken token) : 0 < token.length := by
  cases h <;> simp

/-- Texts that begin with tokens are equal only if the tokens are. -/
theorem IsToken.append_inj {t u x y : List Char} (ht : IsToken t) (hu : IsToken u)
    (h : t ++ x = u ++ y) : t = u ∧ x = y := by
  cases ht with
  | escape c =>
    cases hu with
    | escape d => simpa using h
    | plain hesc _ =>
      obtain ⟨hd, -⟩ := List.cons.inj h
      exact absurd hd.symm hesc
    | reference _ =>
      obtain ⟨hd, -⟩ := List.cons.inj h
      exact absurd hd (by decide)
  | plain hesc hat =>
    cases hu with
    | escape d =>
      obtain ⟨hd, -⟩ := List.cons.inj h
      exact absurd hd hesc
    | plain _ _ => simpa using h
    | reference _ =>
      obtain ⟨hd, -⟩ := List.cons.inj h
      exact absurd hd hat
  | @reference name hn =>
    cases hu with
    | escape d =>
      obtain ⟨hd, -⟩ := List.cons.inj h
      exact absurd hd (by decide)
    | plain _ hat =>
      obtain ⟨hd, -⟩ := List.cons.inj h
      exact absurd hd.symm hat
    | @reference other ho =>
      -- Both names end at the first mark.
      have hl : name.toList ++ '@' :: x = other.toList ++ '@' :: y := by simpa using h
      have hcut := congrArg (Text.cutAt '@') hl
      rw [Text.cutAt_append hn.1, Text.cutAt_append ho.1] at hcut
      obtain ⟨hname, hrest⟩ := Prod.mk.inj hcut
      exact ⟨by rw [hname], Option.some.inj hrest⟩

/-- Every text is a run and something that does not begin with a token. -/
theorem exists_run_append_stuck (cs : List Char) : ∃ u r, cs = u ++ r ∧ IsRun u ∧ Stuck r := by
  induction hn : cs.length using Nat.strongRecOn generalizing cs with
  | _ n ih =>
    by_cases h : Stuck cs
    · exact ⟨[], cs, rfl, .nil, h⟩
    · simp only [Stuck, not_forall, not_not] at h
      obtain ⟨token, rest, ht, rfl⟩ := h
      have hlt : rest.length < n := by
        have := ht.length_pos
        rw [List.length_append] at hn
        omega
      obtain ⟨u, r, rfl, hu, hr⟩ := ih rest.length hlt rest rfl
      exact ⟨token ++ u, r, by rw [List.append_assoc], .cons ht hu, hr⟩

/-- Where no further token stands behind a run, no longer run begins at the same place. -/
theorem IsRun.isPrefix_of_stuck {u v r : List Char} (hv : IsRun v) (hu : IsRun u) (hr : Stuck r)
    (h : v <+: u ++ r) : v <+: u := by
  induction hv generalizing u with
  | nil => exact List.nil_prefix
  | @cons token v ht _ ih =>
    obtain ⟨rest, h⟩ := h
    rw [List.append_assoc] at h
    cases hu with
    | nil => exact absurd h.symm (hr token _ ht)
    | @cons first u hf hu =>
      rw [List.append_assoc] at h
      obtain ⟨rfl, hrest⟩ := ht.append_inj hf h
      exact (List.prefix_append_right_inj token).mpr (ih hu ⟨rest, hrest⟩)

theorem IsRun.longestRun {u r : List Char} (hu : IsRun u) (hr : Stuck r) :
    LongestRun u (u ++ r) where
  isRun := hu
  start := List.prefix_append u r
  longest _ hp hv := (hv.isPrefix_of_stuck hu hr hp).length_le

/-! ## What stands where no token does -/

/-- The characters at which the name of a variable comes to an end. -/
def isMark (c : Char) : Bool := c == '@' || c == '\n'

/-- A variable begins, and the first mark behind it does not close it. -/
def Unclosed (cs : List Char) : Prop := ∃ rest, cs = '@' :: rest ∧ rest.find? isMark ≠ some '@'

/-- A variable begins and is closed, but its name is blank. -/
def Nameless (cs : List Char) : Prop :=
  ∃ name rest, cs = '@' :: (name ++ '@' :: rest) ∧ '@' ∉ name ∧ '\n' ∉ name ∧
    name.all Text.isBlankChar = true

/-- A list without marks, or what stands before its first mark, the mark, and what follows it. -/
theorem find?_isMark_cases (cs : List Char) :
    (cs.find? isMark = none ∧ '@' ∉ cs ∧ '\n' ∉ cs) ∨
    ∃ mark name rest, cs.find? isMark = some mark ∧ (mark = '@' ∨ mark = '\n') ∧
      cs = name ++ mark :: rest ∧ '@' ∉ name ∧ '\n' ∉ name := by
  have hfree {l : List Char} (h : ∀ c ∈ l, isMark c = false) : '@' ∉ l ∧ '\n' ∉ l :=
    ⟨fun hm => absurd (h _ hm) (by decide), fun hm => absurd (h _ hm) (by decide)⟩
  cases hf : cs.find? isMark with
  | none =>
    have hn : ∀ c ∈ cs, isMark c = false := by simpa using hf
    exact .inl ⟨rfl, hfree hn⟩
  | some mark =>
    obtain ⟨hm, name, rest, rfl, hn⟩ := List.find?_eq_some_iff_append.mp hf
    have hn : ∀ c ∈ name, isMark c = false := by simpa using hn
    exact .inr ⟨mark, name, rest, rfl, by simpa [isMark] using hm, rfl, hfree hn⟩

theorem Nameless.not_unclosed (h : Nameless cs) : ¬ Unclosed cs := by
  obtain ⟨name, rest, rfl, hat, hline, -⟩ := h
  rintro ⟨_, he, hf⟩
  obtain ⟨-, rfl⟩ := List.cons.inj he
  refine hf (List.find?_eq_some_iff_append.mpr ⟨rfl, name, rest, rfl, fun c hc => ?_⟩)
  have hne : c ≠ '@' ∧ c ≠ '\n' := ⟨fun e => hat (e ▸ hc), fun e => hline (e ▸ hc)⟩
  simpa [isMark] using hne

/-- What is left where no token can be taken off. -/
theorem Stuck.cases (h : Stuck cs) :
    cs = [] ∨ cs = ['\\'] ∨ Unclosed cs ∨ Nameless cs := by
  cases cs with
  | nil => exact .inl rfl
  | cons c rest =>
    by_cases hesc : c = '\\'
    · subst hesc
      cases rest with
      | nil => exact .inr (.inl rfl)
      | cons d rest => exact absurd rfl (h ['\\', d] rest (.escape d))
    · by_cases hat : c = '@'
      · subst hat
        refine .inr (.inr ?_)
        rcases find?_isMark_cases rest with ⟨hf, -⟩ | ⟨mark, name, tail, hf, rfl | rfl, rfl, hn, hl⟩
        · exact .inl ⟨rest, rfl, by simp [hf]⟩
        · refine .inr ⟨name, tail, rfl, hn, hl, ?_⟩
          by_contra hblank
          have hname : IsName (String.ofList name) := by
            rw [IsName, String.toList_ofList, Text.isBlank_ofList]
            exact ⟨hn, hl, Bool.eq_false_iff.mpr hblank⟩
          exact h _ tail (.reference hname) (by simp)
        · exact .inl ⟨_, rfl, by simp [hf]⟩
      · exact absurd rfl (h [c] rest (.plain hesc hat))

/-! ## How many bytes were read -/

/-- How many bytes the UTF-8 form of the characters has. -/
def byteLength (cs : List Char) : Nat := (String.ofList cs).utf8ByteSize

@[simp] theorem byteLength_nil : byteLength [] = 0 := rfl

@[simp] theorem byteLength_append (cs ds : List Char) :
    byteLength (cs ++ ds) = byteLength cs + byteLength ds := by
  rw [byteLength, String.ofList_append, String.utf8ByteSize_append]
  rfl

@[simp] theorem byteLength_cons (c : Char) (cs : List Char) :
    byteLength (c :: cs) = c.utf8Size + byteLength cs := by
  have hc : byteLength [c] = c.utf8Size := by
    rw [byteLength, ← String.singleton_eq_ofList, String.utf8ByteSize_singleton]
  rw [← List.singleton_append, byteLength_append, hc]

/-! ## Failures -/

/-- The error of a result, if it is one. -/
def failure? {α : Type} : Except Error α → Option Error
  | .ok _ => none
  | .error e => some e

theorem failure?_eq_none_iff {α : Type} {r : Except Error α} :
    failure? r = none ↔ ∃ a, r = .ok a := by
  cases r <;> simp [failure?]

theorem failure?_eq_some_iff {α : Type} {r : Except Error α} {e : Error} :
    failure? r = some e ↔ r = .error e := by
  cases r <;> simp [failure?]

/-- Inside a name, characters that are no marks are read on. -/
theorem scan_name_append {start : Nat} {before name : List Char} (hat : '@' ∉ name)
    (hline : '\n' ∉ name) :
    scan position (.name start before read) (name ++ cs) =
      scan (position + byteLength name) (.name start before (name.reverse ++ read)) cs := by
  induction name generalizing read position with
  | nil => simp
  | cons c name ih =>
    obtain ⟨hc, hat⟩ := not_or.mp (mt List.mem_cons.mpr hat)
    obtain ⟨hl, hline⟩ := not_or.mp (mt List.mem_cons.mpr hline)
    rw [List.cons_append, scan, if_neg (Ne.symm hl), if_neg (Ne.symm hc), ih hat hline,
      byteLength_cons, Nat.add_assoc, List.reverse_cons, List.append_assoc, List.singleton_append]

theorem scan_at {cs : List Char} :
    scan position (.text read) ('@' :: cs) = scan (position + 1) (.name position read []) cs := by
  simp only [scan]
  rfl

/-- Behind the mark that closes it, a variable with a name is read on from. -/
theorem failure?_scan_close {start : Nat} {before : List Char}
    (h : read.all Text.isBlankChar = false) :
    failure? (scan position (.name start before read) ('@' :: cs)) =
      failure? (scan (position + 1) (.text []) cs) := by
  have hsize : position + '@'.utf8Size = position + 1 := rfl
  cases hs : scan (position + 1) (.text []) cs <;> simp [scan, h, hsize, hs, failure?]

/-- The characters are read through wherever literal text is read: reading fails as it does from
what follows them on, so many bytes further. -/
def ReadThrough (cs : List Char) : Prop :=
  ∀ position read rest, ∃ read', failure? (scan position (.text read) (cs ++ rest)) =
    failure? (scan (position + byteLength cs) (.text read') rest)

theorem IsToken.readThrough {token : List Char} (h : IsToken token) : ReadThrough token := by
  intro position read rest
  cases h with
  | escape c =>
    by_cases hc : c = '@' ∨ c = '\\'
    · exact ⟨c :: read, by simp [scan, hc, Nat.add_assoc]⟩
    · exact ⟨c :: '\\' :: read, by simp [scan, hc, Nat.add_assoc]⟩
  | @plain c hesc hat => exact ⟨c :: read, by simp [scan, hesc, hat]⟩
  | @reference name hn =>
    obtain ⟨hat, hline, hblank⟩ := hn
    have hblank : (name.toList.reverse ++ []).all Text.isBlankChar = false := by
      simpa [Text.isBlank] using hblank
    have hlen : position + byteLength ('@' :: name.toList ++ ['@']) =
        position + 1 + byteLength name.toList + 1 := by
      have hmark : byteLength ['@'] = 1 := rfl
      rw [byteLength_append, byteLength_cons, hmark, show '@'.utf8Size = 1 from rfl]
      omega
    refine ⟨[], ?_⟩
    rw [hlen, List.append_assoc, List.cons_append, List.singleton_append, scan_at,
      scan_name_append hat hline, failure?_scan_close hblank]

theorem IsRun.readThrough {u : List Char} (h : IsRun u) : ReadThrough u := by
  induction h with
  | nil => exact fun _ read _ => ⟨read, rfl⟩
  | @cons token u ht _ ih =>
    intro position read rest
    obtain ⟨read₁, h₁⟩ := ht.readThrough position read (u ++ rest)
    obtain ⟨read₂, h₂⟩ := ih (position + byteLength token) read₁ rest
    refine ⟨read₂, ?_⟩
    rw [List.append_assoc, h₁, h₂, byteLength_append, Nat.add_assoc]

theorem scan_unclosed (h : Unclosed cs) :
    scan position (.text read) cs = .error (.unterminated position) := by
  obtain ⟨rest, rfl, hf⟩ := h
  rw [scan_at]
  rcases find?_isMark_cases rest with
    ⟨-, hat, hline⟩ | ⟨mark, name, tail, hm, rfl | rfl, rfl, hat, hline⟩
  · rw [← List.append_nil rest, scan_name_append hat hline, scan]
  · exact absurd hm hf
  · rw [scan_name_append hat hline, scan, if_pos rfl]

theorem scan_nameless (h : Nameless cs) :
    scan position (.text read) cs = .error (.emptyName position) := by
  obtain ⟨name, rest, rfl, hat, hline, hblank⟩ := h
  have hblank : (name.reverse ++ []).all Text.isBlankChar = true := by simpa using hblank
  rw [scan_at, scan_name_append hat hline, scan, if_neg (by decide), if_pos rfl, if_pos hblank]

/-! ## Outcomes -/

theorem names_eq_nil_iff {segments : List Segment} :
    names segments = [] ↔ ∀ name, .variable name ∉ segments := by
  rw [names, List.filterMap_eq_nil_iff]
  constructor
  · intro h name hm
    cases h _ hm
  · intro h segment hm
    cases segment with
    | literal text => rfl
    | «variable» name => exact absurd hm (h name)

theorem hasVariables_eq_false_iff {s : String} :
    hasVariables s = false ↔
      ∃ segments, parse s = .ok segments ∧ ∀ name, .variable name ∉ segments := by
  unfold hasVariables variableNames
  cases parse s <;> simp [names_eq_nil_iff]

/-- Let `u` be the longest run of tokens with which a text begins, and `r` what is left of the
text. Reading succeeds if nothing is left. Otherwise the error is the one of `r`, and its position
is the number of bytes of `u`. -/
theorem parse_outcome (s : String) :
    ∃ u r, s.toList = u ++ r ∧ LongestRun u s.toList ∧
      ((∃ segments, parse s = .ok segments) ↔ r = []) ∧
      (parse s = .error .danglingEscape ↔ r = ['\\']) ∧
      (parse s = .error (.unterminated (byteLength u)) ↔ Unclosed r) ∧
      (parse s = .error (.emptyName (byteLength u)) ↔ r ≠ [] ∧ r ≠ ['\\'] ∧ ¬ Unclosed r) ∧
      (hasVariables s = false ↔
        ∃ segments, parse s = .ok segments ∧ ∀ name, .variable name ∉ segments) := by
  obtain ⟨u, r, hs, hu, hr⟩ := exists_run_append_stuck s.toList
  obtain ⟨read, hread⟩ := hu.readThrough 0 [] r
  have hp : failure? (parse s) = failure? (scan (byteLength u) (.text read) r) := by
    rw [parse, hs, hread, Nat.zero_add]
  refine ⟨u, r, hs, hs ▸ hu.longestRun hr, ?_⟩
  rw [← failure?_eq_none_iff, ← failure?_eq_some_iff, ← failure?_eq_some_iff,
    ← failure?_eq_some_iff, hp]
  have hempty : ¬ Unclosed [] := by simp [Unclosed]
  have hescape : ¬ Unclosed ['\\'] := by simp [Unclosed]
  rcases hr.cases with rfl | rfl | h | h
  · simp [scan, failure?, hempty, hasVariables_eq_false_iff]
  · simp [scan, failure?, hescape, hasVariables_eq_false_iff]
  · have hne : r ≠ [] ∧ r ≠ ['\\'] := ⟨fun e => hempty (e ▸ h), fun e => hescape (e ▸ h)⟩
    simp [scan_unclosed h, failure?, h, hne, hasVariables_eq_false_iff]
  · have hne : r ≠ [] ∧ r ≠ ['\\'] := by
      obtain ⟨name, rest, rfl, -⟩ := h
      simp
    simp [scan_nameless h, failure?, h.not_unclosed, hne, hasVariables_eq_false_iff]

end Interpolation

end Pipeline
