import Pipeline.Glob

/-!
# Lists of patterns choose alike

* `Glob.matchesAny_iff`, `Glob.touchesAny_iff`: an empty list chooses everything, and any other one
  what one of its patterns matches.
* `Glob.SameChoices`: two lists choose the same texts, and by the same files.
* `Glob.SameWellFormed`: two lists have the same well-formed patterns, and none or both of them are
  empty. Such lists choose the same (`Glob.SameWellFormed.sameChoices`).
* `Glob.lists_agree`: files are chosen as texts are, a malformed pattern chooses nothing, and it makes
  no difference in which order patterns stand, how often, and with which malformed ones.
-/

namespace Pipeline

namespace Glob

variable {p text : String} {ps qs files : List String}

/-! ## What is chosen -/

theorem error?_eq_none_iff : error? p = none ↔ ∃ q, ofText p = .ok q := by
  unfold error?
  cases ofText p <;> simp

/-- A malformed pattern matches nothing. -/
theorem error?_of_accepts (h : accepts p text = true) : error? p = none := by
  rw [error?_eq_none_iff]
  cases hq : ofText p with
  | ok q => exact ⟨q, rfl⟩
  | error e => simp [accepts, hq] at h

theorem matchesAny_iff :
    matchesAny ps text = true ↔ ps = [] ∨ ∃ p ∈ ps, accepts p text = true := by
  rw [matchesAny, Bool.or_eq_true, List.isEmpty_iff, List.any_eq_true]

theorem matchesAny_pattern_iff : matchesAny [p] text = true ↔ accepts p text = true := by
  simp [matchesAny_iff]

theorem touchesAny_iff :
    touchesAny ps files = true ↔ ps = [] ∨ ∃ f ∈ files, matchesAny ps f = true := by
  by_cases hps : ps = []
  · simp [hps, touchesAny]
  · simp only [matchesAny_iff, hps, false_or, touchesAny, Bool.or_eq_true, List.isEmpty_iff,
      List.any_eq_true]

/-! ## Lists that choose the same -/

/-- Two lists of patterns choose the same texts, and choose by the same files. -/
def SameChoices (ps qs : List String) : Prop :=
  (∀ text, matchesAny ps text = matchesAny qs text) ∧
    ∀ files, touchesAny ps files = touchesAny qs files

/-- Two lists have the same well-formed patterns, whatever their order and number, and both of them or
neither is empty. -/
structure SameWellFormed (ps qs : List String) : Prop where
  eq_nil_iff : ps = [] ↔ qs = []
  mem_iff : ∀ p, error? p = none → (p ∈ ps ↔ p ∈ qs)

theorem SameWellFormed.sameChoices (h : SameWellFormed ps qs) : SameChoices ps qs := by
  have hmatch (text : String) : matchesAny ps text = matchesAny qs text := by
    have hsome : (∃ p ∈ ps, accepts p text = true) ↔ ∃ p ∈ qs, accepts p text = true :=
      exists_congr fun p => and_congr_left fun ha => h.mem_iff p (error?_of_accepts ha)
    rw [Bool.eq_iff_iff, matchesAny_iff, matchesAny_iff, h.eq_nil_iff, hsome]
  refine ⟨hmatch, fun files => ?_⟩
  rw [Bool.eq_iff_iff, touchesAny_iff, touchesAny_iff, h.eq_nil_iff]
  simp only [hmatch]

/-- A list chooses by files if it is empty or one of the files is chosen as a text. What is chosen by
a list that is not empty is matched by one of its well-formed patterns alone, so that malformed
patterns choose nothing. Lists with the same patterns choose the same, in whatever order and however
often these stand, and so does what is left of a list when malformed patterns are left out, if it
holds a well-formed one. -/
theorem lists_agree (ps : List String) :
    (∀ files, touchesAny ps files = true ↔ ps = [] ∨ ∃ f ∈ files, matchesAny ps f = true) ∧
    (ps ≠ [] →
      (∀ text, matchesAny ps text = true ↔
        ∃ p ∈ ps, error? p = none ∧ matchesAny [p] text = true) ∧
      ((∀ p ∈ ps, error? p ≠ none) →
        (∀ text, matchesAny ps text = false) ∧ ∀ files, touchesAny ps files = false)) ∧
    (∀ qs, (∀ p, p ∈ ps ↔ p ∈ qs) → SameChoices ps qs) ∧
    ∀ qs, qs.Sublist ps → (∀ p ∈ ps, error? p = none → p ∈ qs) → (∃ p ∈ qs, error? p = none) →
      SameChoices ps qs := by
  refine ⟨fun files => touchesAny_iff, fun hne => ⟨fun text => ?_, fun hbad => ?_⟩,
    fun qs hmem => ?_, fun qs hsub hkept hgood => ?_⟩
  · rw [matchesAny_iff, or_iff_right hne]
    exact exists_congr fun p => and_congr_right fun _ => by
      rw [matchesAny_pattern_iff, iff_and_self]
      exact error?_of_accepts
  · have hmatch (text : String) : matchesAny ps text = false := by
      rw [Bool.eq_false_iff, Ne, matchesAny_iff, or_iff_right hne]
      rintro ⟨p, hp, ha⟩
      exact hbad p hp (error?_of_accepts ha)
    refine ⟨hmatch, fun files => ?_⟩
    rw [Bool.eq_false_iff, Ne, touchesAny_iff, or_iff_right hne]
    rintro ⟨f, -, hf⟩
    exact absurd hf (by simp [hmatch])
  · refine SameWellFormed.sameChoices ⟨?_, fun p _ => hmem p⟩
    simp only [List.eq_nil_iff_forall_not_mem, hmem]
  · obtain ⟨p, hp, -⟩ := hgood
    refine SameWellFormed.sameChoices ⟨?_, fun p hw => ?_⟩
    · exact iff_of_false (List.ne_nil_of_mem (hsub.subset hp)) (List.ne_nil_of_mem hp)
    · exact ⟨fun h => hkept p h hw, fun h => hsub.subset h⟩

/-- Sources and documents, and two patterns that are malformed. -/
def sources : List String := ["docs/[", "src/*", "a\x7b", "docs/**"]

/-- What `sources` says of a file in `src`, of its malformed patterns alone, of its patterns in
another order with one of them repeated, and of its well-formed patterns. -/
theorem lists_agree_sources :
    (sources ≠ [] ∧ matchesAny sources "src/main" = true ∧
      ∃ p ∈ sources, error? p = none ∧ matchesAny [p] "src/main" = true) ∧
    ((∀ p ∈ ["docs/[", "a\x7b"], error? p ≠ none) ∧
      ∀ files, touchesAny ["docs/[", "a\x7b"] files = false) ∧
    SameChoices sources ["docs/**", "src/*", "src/*", "a\x7b", "docs/["] ∧
    SameChoices sources ["src/*", "docs/**"] := by
  obtain ⟨-, hchosen, hmembers, hleft⟩ := lists_agree sources
  have hmain : matchesAny sources "src/main" = true := by decide +kernel
  have hbad : ∀ p ∈ ["docs/[", "a\x7b"], error? p ≠ none := by decide +kernel
  refine ⟨⟨by decide, hmain, ((hchosen (by decide)).1 _).1 hmain⟩,
    ⟨hbad, (((lists_agree ["docs/[", "a\x7b"]).2.1 (by decide)).2 hbad).2⟩,
    hmembers _ fun p => ?_, hleft _ (by decide) (by decide +kernel) ?_⟩
  · simp only [sources, List.mem_cons, List.not_mem_nil]
    grind
  · exact ⟨"src/*", by decide, by decide +kernel⟩

/-- The list that is left has to hold a well-formed pattern: the empty one chooses everything. -/
example : matchesAny ["v[0-9"] "v1" = false ∧ matchesAny [] "v1" = true := by decide

end Glob

end Pipeline
