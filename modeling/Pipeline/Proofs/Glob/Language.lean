import Pipeline.Glob

/-!
# What patterns stand for

The matcher lists all that can be left of a text behind a pattern. Here it is said which bytes a
pattern stands for, whatever text they are in.

* `Glob.Token.Spells`, `Glob.Spells`: the bytes that a part of a pattern, and a pattern, stand for.
* `Glob.mem_rests_iff`: what can be left behind a pattern is what follows bytes that it stands for.
* `Glob.Pattern.accepts_iff`, `Glob.matchesAny_singleton_iff`: a text is matched if the pattern stands
  for all of its bytes.
-/

namespace Pipeline

namespace Glob

mutual

/-- The bytes that a part of a pattern stands for. -/
inductive Token.Spells : Token → List UInt8 → Prop
  | char (c : Char) : Token.Spells (.char c) (charBytes c)
  | any {b : UInt8} : b ≠ slash → Token.Spells .any [b]
  | star {bs : List UInt8} : slash ∉ bs → Token.Spells .star bs
  | atStart : Token.Spells .leading []
  | leading (bs : List UInt8) : Token.Spells .leading (bs ++ [slash])
  | trailing (bs : List UInt8) : Token.Spells .trailing (slash :: bs)
  | oneSlash : Token.Spells .between [slash]
  | between (bs : List UInt8) : Token.Spells .between (slash :: bs ++ [slash])
  | oneOf {negated : Bool} {ranges : List (Char × Char)} {b : UInt8} :
    ((ranges.any fun r => inRange r b) != negated) = true →
    Token.Spells (.oneOf negated ranges) [b]
  | noChoice {branches : List Pattern} :
    areNothing branches = true → Token.Spells (.choice branches) []
  | choice {branches : List Pattern} {p : Pattern} {bs : List UInt8} :
    p ∈ branches → isNothing p = false → Spells p bs → Token.Spells (.choice branches) bs

/-- The bytes that a pattern stands for. -/
inductive Spells : List Token → List UInt8 → Prop
  | nil : Spells [] []
  | cons {t : Token} {ts : List Token} {bs cs : List UInt8} :
    Token.Spells t bs → Spells ts cs → Spells (t :: ts) (bs ++ cs)

end

section

variable {bs cs rest : List UInt8}

/-! ## The bytes of parts -/

namespace Token

theorem spells_char_iff {c : Char} : Spells (.char c) bs ↔ bs = charBytes c := by
  constructor
  · rintro ⟨⟩
    rfl
  · rintro rfl
    exact .char c

theorem spells_any_iff : Spells .any bs ↔ ∃ b, b ≠ slash ∧ bs = [b] := by
  constructor
  · rintro ⟨⟩
    exact ⟨_, ‹_›, rfl⟩
  · rintro ⟨b, hb, rfl⟩
    exact .any hb

theorem spells_star_iff : Spells .star bs ↔ slash ∉ bs := by
  constructor
  · rintro ⟨⟩
    assumption
  · exact .star

theorem spells_leading_iff : Spells .leading bs ↔ bs = [] ∨ ∃ cs, bs = cs ++ [slash] := by
  constructor
  · rintro ⟨⟩
    · exact .inl rfl
    · exact .inr ⟨_, rfl⟩
  · rintro (rfl | ⟨cs, rfl⟩)
    · exact .atStart
    · exact .leading cs

theorem spells_trailing_iff : Spells .trailing bs ↔ ∃ cs, bs = slash :: cs := by
  constructor
  · rintro ⟨⟩
    exact ⟨_, rfl⟩
  · rintro ⟨cs, rfl⟩
    exact .trailing cs

theorem spells_between_iff :
    Spells .between bs ↔ bs = [slash] ∨ ∃ cs, bs = slash :: cs ++ [slash] := by
  constructor
  · rintro ⟨⟩
    · exact .inl rfl
    · exact .inr ⟨_, rfl⟩
  · rintro (rfl | ⟨cs, rfl⟩)
    · exact .oneSlash
    · exact .between cs

theorem spells_oneOf_iff {negated : Bool} {ranges : List (Char × Char)} :
    Spells (.oneOf negated ranges) bs ↔
      ∃ b, ((ranges.any fun r => inRange r b) != negated) = true ∧ bs = [b] := by
  constructor
  · rintro ⟨⟩
    exact ⟨_, ‹_›, rfl⟩
  · rintro ⟨b, hb, rfl⟩
    exact .oneOf hb

theorem spells_choice_iff {branches : List Pattern} :
    Spells (.choice branches) bs ↔ (areNothing branches = true ∧ bs = []) ∨
      ∃ p ∈ branches, Glob.isNothing p = false ∧ Glob.Spells p bs := by
  constructor
  · rintro ⟨⟩
    · exact .inl ⟨‹_›, rfl⟩
    · exact .inr ⟨_, ‹_›, ‹_›, ‹_›⟩
  · rintro (⟨h, rfl⟩ | ⟨p, hp, hn, h⟩)
    · exact .noChoice h
    · exact .choice hp hn h

end Token

@[simp] theorem spells_nil_iff : Spells [] bs ↔ bs = [] := by
  constructor
  · rintro ⟨⟩
    rfl
  · rintro rfl
    exact .nil

theorem spells_cons_iff {t : Token} {ts : Pattern} :
    Spells (t :: ts) bs ↔ ∃ cs ds, t.Spells cs ∧ Spells ts ds ∧ bs = cs ++ ds := by
  constructor
  · rintro ⟨⟩
    exact ⟨_, _, ‹_›, ‹_›, rfl⟩
  · rintro ⟨cs, ds, ht, hts, rfl⟩
    exact .cons ht hts

theorem spells_append_iff {p q : Pattern} :
    Spells (p ++ q) bs ↔ ∃ cs ds, Spells p cs ∧ Spells q ds ∧ bs = cs ++ ds := by
  induction p generalizing bs with
  | nil => simp
  | cons t ts ih =>
    simp only [List.cons_append, spells_cons_iff, ih]
    constructor
    · rintro ⟨cs, _, ht, ⟨ds, es, hts, hq, rfl⟩, rfl⟩
      exact ⟨cs ++ ds, es, ⟨cs, ds, ht, hts, rfl⟩, hq, (List.append_assoc ..).symm⟩
    · rintro ⟨_, es, ⟨cs, ds, ht, hts, rfl⟩, hq, rfl⟩
      exact ⟨cs, ds ++ es, ht, ⟨ds, es, hts, hq, rfl⟩, List.append_assoc ..⟩

/-! ## What is left -/

theorem afterBytes?_eq_some_iff : afterBytes? cs bs = some rest ↔ bs = cs ++ rest := by
  induction cs generalizing bs with
  | nil => simp [afterBytes?]
  | cons c cs ih =>
    cases bs with
    | nil => simp [afterBytes?]
    | cons b bs =>
      by_cases h : c = b
      · simp [afterBytes?, h, ih]
      · simp [afterBytes?, h, Ne.symm h]

theorem mem_afterAll_iff : rest ∈ afterAll bs ↔ rest <:+ bs := by
  induction bs with
  | nil => simp [afterAll]
  | cons b bs ih => rw [afterAll, List.mem_cons, ih, List.suffix_cons_iff]

theorem mem_afterSegment_iff :
    rest ∈ afterSegment bs ↔ ∃ cs, slash ∉ cs ∧ bs = cs ++ rest := by
  induction bs with
  | nil =>
    simp only [afterSegment, List.mem_singleton, List.nil_eq_append_iff]
    constructor
    · intro h
      exact ⟨[], by simp, rfl, h⟩
    · rintro ⟨-, -, -, h⟩
      exact h
  | cons b bs ih =>
    rw [afterSegment, List.mem_cons]
    constructor
    · rintro (rfl | h)
      · exact ⟨[], by simp, rfl⟩
      · split at h
        · cases h
        · obtain ⟨cs, hcs, rfl⟩ := ih.mp h
          exact ⟨b :: cs, by simp [hcs, Ne.symm ‹_›], rfl⟩
    · rintro ⟨cs, hcs, h⟩
      cases cs with
      | nil => exact .inl h.symm
      | cons c cs =>
        obtain ⟨rfl, rfl⟩ := List.cons.inj h
        obtain ⟨hb, hcs⟩ := not_or.mp (mt List.mem_cons.mpr hcs)
        rw [if_neg (Ne.symm hb)]
        exact .inr (ih.mpr ⟨cs, hcs, rfl⟩)

theorem mem_afterSlashes_iff :
    rest ∈ afterSlashes bs ↔ ∃ cs, bs = cs ++ slash :: rest := by
  induction bs with
  | nil => simp [afterSlashes]
  | cons b bs ih =>
    have hstep : (∃ cs, b :: bs = cs ++ slash :: rest) ↔
        (b = slash ∧ bs = rest) ∨ rest ∈ afterSlashes bs := by
      rw [ih]
      constructor
      · rintro ⟨cs, h⟩
        cases cs with
        | nil => exact .inl (List.cons.inj h)
        | cons c cs => exact .inr ⟨cs, (List.cons.inj h).2⟩
      · rintro (⟨rfl, rfl⟩ | ⟨cs, rfl⟩)
        · exact ⟨[], rfl⟩
        · exact ⟨b :: cs, rfl⟩
    rw [hstep, afterSlashes]
    split
    · simp [*, eq_comm]
    · simp [*]

theorem areNothing_iff {branches : List Pattern} :
    areNothing branches = true ↔ ∀ p ∈ branches, isNothing p = true := by
  induction branches with
  | nil => simp [areNothing]
  | cons p ps ih => simp [areNothing, ih]

/-! ## The matcher -/

namespace Token

theorem mem_rests_any_iff :
    rest ∈ Token.any.rests bs ↔ ∃ cs, Spells .any cs ∧ bs = cs ++ rest := by
  constructor
  · intro h
    cases bs with
    | nil => simp [Token.rests] at h
    | cons b bs =>
      simp only [Token.rests, List.mem_ite_nil_left, List.mem_singleton] at h
      obtain ⟨hb, rfl⟩ := h
      exact ⟨[b], .any hb, rfl⟩
  · rintro ⟨cs, h, rfl⟩
    obtain ⟨b, hb, rfl⟩ := spells_any_iff.mp h
    simp [Token.rests, hb]

theorem mem_rests_oneOf_iff {negated : Bool} {ranges : List (Char × Char)} :
    rest ∈ (Token.oneOf negated ranges).rests bs ↔
      ∃ cs, Spells (.oneOf negated ranges) cs ∧ bs = cs ++ rest := by
  constructor
  · intro h
    cases bs with
    | nil => simp [Token.rests] at h
    | cons b bs =>
      simp only [Token.rests, List.mem_ite_nil_right, List.mem_singleton] at h
      obtain ⟨hb, rfl⟩ := h
      exact ⟨[b], .oneOf hb, rfl⟩
  · rintro ⟨cs, h, rfl⟩
    obtain ⟨b, hb, rfl⟩ := spells_oneOf_iff.mp h
    simp only [Token.rests, List.singleton_append, if_pos hb, List.mem_singleton]

theorem mem_rests_leading_iff :
    rest ∈ Token.leading.rests bs ↔ ∃ cs, Spells .leading cs ∧ bs = cs ++ rest := by
  rw [Token.rests, List.mem_cons, mem_afterSlashes_iff]
  constructor
  · rintro (rfl | ⟨cs, rfl⟩)
    · exact ⟨[], .atStart, rfl⟩
    · exact ⟨cs ++ [slash], .leading cs, by simp⟩
  · rintro ⟨_, h, rfl⟩
    obtain rfl | ⟨cs, rfl⟩ := spells_leading_iff.mp h
    · exact .inl rfl
    · exact .inr ⟨cs, by simp⟩

theorem mem_rests_trailing_iff :
    rest ∈ Token.trailing.rests bs ↔ ∃ cs, Spells .trailing cs ∧ bs = cs ++ rest := by
  constructor
  · intro h
    cases bs with
    | nil => simp [Token.rests] at h
    | cons b bs =>
      simp only [Token.rests, List.mem_ite_nil_right, mem_afterAll_iff] at h
      obtain ⟨rfl, cs, rfl⟩ := h
      exact ⟨slash :: cs, .trailing cs, rfl⟩
  · rintro ⟨_, h, rfl⟩
    obtain ⟨cs, rfl⟩ := spells_trailing_iff.mp h
    simp [Token.rests, mem_afterAll_iff]

theorem mem_rests_between_iff :
    rest ∈ Token.between.rests bs ↔ ∃ cs, Spells .between cs ∧ bs = cs ++ rest := by
  constructor
  · intro h
    cases bs with
    | nil => simp [Token.rests] at h
    | cons b bs =>
      simp only [Token.rests, List.mem_ite_nil_right, List.mem_cons, mem_afterSlashes_iff] at h
      obtain ⟨rfl, rfl | ⟨cs, rfl⟩⟩ := h
      · exact ⟨[slash], .oneSlash, rfl⟩
      · exact ⟨slash :: cs ++ [slash], .between cs, by simp⟩
  · rintro ⟨_, h, rfl⟩
    obtain rfl | ⟨cs, rfl⟩ := spells_between_iff.mp h
    · simp [Token.rests]
    · simp only [Token.rests, List.cons_append, if_true, List.mem_cons, mem_afterSlashes_iff]
      exact .inr ⟨cs, by simp⟩

end Token

end

mutual

theorem Token.mem_rests_iff (t : Token) (bs rest : List UInt8) :
    rest ∈ t.rests bs ↔ ∃ cs, t.Spells cs ∧ bs = cs ++ rest := by
  cases t with
  | char c => simp [Token.rests, afterBytes?_eq_some_iff, Token.spells_char_iff]
  | any => exact Token.mem_rests_any_iff
  | star => simp [Token.rests, mem_afterSegment_iff, Token.spells_star_iff]
  | leading => exact Token.mem_rests_leading_iff
  | trailing => exact Token.mem_rests_trailing_iff
  | between => exact Token.mem_rests_between_iff
  | oneOf negated ranges => exact Token.mem_rests_oneOf_iff
  | choice branches =>
    rw [Token.rests]
    split
    next hn =>
      rw [List.mem_singleton]
      constructor
      · rintro rfl
        exact ⟨[], .noChoice hn, rfl⟩
      · rintro ⟨cs, h, rfl⟩
        rcases Token.spells_choice_iff.mp h with ⟨-, rfl⟩ | ⟨p, hp, hf, -⟩
        · rfl
        · exact absurd (areNothing_iff.mp hn p hp) (by simp [hf])
    next hn =>
      rw [List.mem_eraseDups, mem_branchRests_iff branches]
      constructor
      · rintro ⟨p, hp, hf, cs, hcs, rfl⟩
        exact ⟨cs, .choice hp hf hcs, rfl⟩
      · rintro ⟨cs, h, rfl⟩
        rcases Token.spells_choice_iff.mp h with ⟨hn', -⟩ | ⟨p, hp, hf, hcs⟩
        · exact absurd hn' hn
        · exact ⟨p, hp, hf, cs, hcs, rfl⟩

theorem mem_branchRests_iff (branches : List Pattern) (bs rest : List UInt8) :
    rest ∈ branchRests branches bs ↔
      ∃ p ∈ branches, isNothing p = false ∧ ∃ cs, Spells p cs ∧ bs = cs ++ rest := by
  match branches with
  | [] => simp [branchRests]
  | p :: ps =>
    rw [branchRests, List.mem_append, mem_branchRests_iff ps bs rest]
    have hp := mem_rests_iff p bs rest
    cases hn : isNothing p <;> simp [hp, hn]

/-- What can be left of a text behind a pattern is what follows bytes that it stands for. -/
theorem mem_rests_iff (p : Pattern) (bs rest : List UInt8) :
    rest ∈ Glob.rests p bs ↔ ∃ cs, Spells p cs ∧ bs = cs ++ rest := by
  match p with
  | [] => simp [Glob.rests, eq_comm]
  | t :: ts =>
    rw [Glob.rests, List.mem_eraseDups, List.mem_flatMap]
    simp only [spells_cons_iff, Token.mem_rests_iff t, mem_rests_iff ts]
    constructor
    · rintro ⟨_, ⟨cs, ht, rfl⟩, ds, hts, rfl⟩
      exact ⟨cs ++ ds, ⟨cs, ds, ht, hts, rfl⟩, (List.append_assoc ..).symm⟩
    · rintro ⟨_, ⟨cs, ds, ht, hts, rfl⟩, rfl⟩
      exact ⟨ds ++ rest, ⟨cs, ht, List.append_assoc ..⟩, ds, hts, rfl⟩

end

theorem isEverything_iff {p : Pattern} : isEverything p = true ↔ p = [.leading] := by
  unfold isEverything
  split <;> simp_all

/-- A text is matched if the pattern stands for all of its bytes; `**` alone matches every text. -/
theorem Pattern.accepts_iff {p : Pattern} {text : String} :
    p.accepts text = true ↔ p = [.leading] ∨ Spells p (textBytes text) := by
  simp [Pattern.accepts, isEverything_iff, mem_rests_iff]

theorem matchesAny_singleton_iff {pattern text : String} {p : Pattern} (h : ofText pattern = .ok p) :
    matchesAny [pattern] text = true ↔ p = [.leading] ∨ Spells p (textBytes text) := by
  simp [matchesAny, accepts, h, Pattern.accepts_iff]

end Glob

end Pipeline
