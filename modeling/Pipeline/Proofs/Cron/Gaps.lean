import Pipeline.Cron.Field
import Pipeline.Proofs.Text.Words

/-!
# Gaps in cron expressions

* `Cron.OnlyGaps`: a text has no other blank characters than those of gaps.
* `Cron.Trails`: lists of cron words that are the same but for a gap at the end.
* `Cron.spread`: the words of a text as cron words, with a gap before each of them.
* `Cron.trails_tokensFrom_none`: the cron words of a text are these, but for the gaps at both ends,
  so they depend on the words of the text only.
-/

namespace Pipeline

namespace Cron

/-- A text has no other blank characters than those of gaps. -/
def OnlyGaps (cs : List Char) : Prop := ∀ c ∈ cs, Text.isBlankChar c = true → isGap c = true

instance {cs : List Char} : Decidable (OnlyGaps cs) :=
  List.decidableBAll (fun c => Text.isBlankChar c = true → isGap c = true) cs

variable {c : Char} {w cs : List Char} {ws : List (List Char)} {run : Run}

theorem isBlankChar_of_isGap (hc : isGap c = true) : Text.isBlankChar c = true := by
  simp only [isGap, Bool.or_eq_true, beq_iff_eq] at hc
  obtain ((rfl | rfl) | rfl) | rfl := hc <;> decide

theorem isGap_of_isWord (hw : Text.IsWord w) : ∀ c ∈ w, isGap c = false := fun c hc =>
  Bool.eq_false_iff.mpr fun h => by simpa [hw.not_blank c hc] using isBlankChar_of_isGap h

/-! ## The end of a list of cron words -/

/-- Two lists of cron words are the same, except that the second one may have a further gap at the
end. The first one has none there. -/
inductive Trails : List Token → List Token → Prop
  | nil : Trails [] []
  | gap : Trails [] [.gap]
  | cons {t : Token} {r r' : List Token} (h : Trails r r') (ht : t = .gap → r ≠ []) :
      Trails (t :: r) (t :: r')

theorem Trails.append {ts r r' : List Token} (hts : .gap ∉ ts) (h : Trails r r') :
    Trails (ts ++ r) (ts ++ r') := by
  induction ts with
  | nil => exact h
  | cons t ts ih =>
    obtain ⟨ht, hts⟩ := not_or.mp (mt List.mem_cons.mpr hts)
    exact .cons (ih hts) fun hg => absurd hg.symm ht

/-! ## One character -/

theorem Run.none_ne_gap : Run.none ≠ .gap := nofun

theorem tokensFrom_cons_gap (hrun : run ≠ .gap) (hc : isGap c = true) (cs : List Char) :
    tokensFrom run (c :: cs) = run.finish ++ tokensFrom .gap cs := by
  cases run <;> simp_all [tokensFrom]

theorem tokensFrom_gap_cons_gap (hc : isGap c = true) (cs : List Char) :
    tokensFrom .gap (c :: cs) = tokensFrom .gap cs := by
  simp [tokensFrom, hc]

/-- A gap is over where another character comes. -/
theorem tokensFrom_gap_cons (hc : isGap c = false) (cs : List Char) :
    tokensFrom .gap (c :: cs) = .gap :: tokensFrom .none (c :: cs) := by
  by_cases hd : Text.isDecimalDigit c = true <;> by_cases hl : isLetter c = true <;>
    simp [tokensFrom, Run.finish, hc, hd, hl]

theorem gap_not_mem_finish (hrun : run ≠ .gap) : .gap ∉ run.finish := by
  cases run <;> simp_all [Run.finish]

/-- Such a character goes on with the run or completes it. It is not lost, and begins no gap. -/
theorem exists_tokensFrom_cons (hrun : run ≠ .gap) (hc : isGap c = false) :
    ∃ complete next, .gap ∉ complete ∧ next ≠ .gap ∧ (next = .none → complete ≠ []) ∧
      ∀ cs, tokensFrom run (c :: cs) = complete ++ tokensFrom next cs := by
  have hf := gap_not_mem_finish hrun
  -- Digits go on with digits and letters with letters. Whatever else comes, the run is complete.
  by_cases hd : Text.isDecimalDigit c = true
  · cases run with
    | gap => exact absurd rfl hrun
    | digits read =>
      exact ⟨[], .digits (c :: read), by simp, nofun, nofun, by simp [tokensFrom, hc, hd]⟩
    | none | letters =>
      exact ⟨_, .digits [c], hf, nofun, nofun, by simp [tokensFrom, hc, hd]⟩
  by_cases hl : isLetter c = true
  · cases run with
    | gap => exact absurd rfl hrun
    | letters read =>
      exact ⟨[], .letters (c :: read), by simp, nofun, nofun, by simp [tokensFrom, hc, hd, hl]⟩
    | none | digits =>
      exact ⟨_, .letters [c], hf, nofun, nofun, by simp [tokensFrom, hc, hd, hl]⟩
  · refine ⟨run.finish ++ [.sign c], .none, by simpa using hf, nofun, by simp, fun cs => ?_⟩
    simp [tokensFrom, hc, hd, hl]

/-! ## One word -/

theorem tokensFrom_append_gap (hrun : run ≠ .gap) (hw : ∀ d ∈ w, isGap d = false)
    (hc : isGap c = true) (cs : List Char) :
    tokensFrom run (w ++ c :: cs) = tokensFrom run w ++ tokensFrom .gap cs := by
  induction w generalizing run with
  | nil => exact tokensFrom_cons_gap hrun hc cs
  | cons d w ih =>
    obtain ⟨hd, hw⟩ := List.forall_mem_cons.mp hw
    obtain ⟨complete, next, -, hnext, -, he⟩ := exists_tokensFrom_cons hrun hd
    rw [List.cons_append, he, he, ih hnext hw, List.append_assoc]

theorem gap_not_mem_tokensFrom (hrun : run ≠ .gap) (hw : ∀ d ∈ w, isGap d = false) :
    .gap ∉ tokensFrom run w := by
  induction w generalizing run with
  | nil => exact gap_not_mem_finish hrun
  | cons d w ih =>
    obtain ⟨hd, hw⟩ := List.forall_mem_cons.mp hw
    obtain ⟨complete, next, hcomplete, hnext, -, he⟩ := exists_tokensFrom_cons hrun hd
    rw [he, List.mem_append]
    exact not_or.mpr ⟨hcomplete, ih hnext hw⟩

theorem tokensFrom_ne_nil (hrun : run ≠ .gap) (hw : ∀ d ∈ w, isGap d = false)
    (h : run = .none → w ≠ []) : tokensFrom run w ≠ [] := by
  induction w generalizing run with
  | nil =>
    have hnone : run ≠ .none := fun he => h he rfl
    cases run <;> simp_all [tokensFrom, Run.finish]
  | cons d w ih =>
    obtain ⟨hd, hw⟩ := List.forall_mem_cons.mp hw
    obtain ⟨complete, next, -, hnext, hkept, he⟩ := exists_tokensFrom_cons hrun hd
    rw [he]
    intro hnil
    obtain ⟨hcomplete, hrest⟩ := List.append_eq_nil_iff.mp hnil
    exact ih hnext hw (fun hn => absurd hcomplete (hkept hn)) hrest

/-! ## All words -/

/-- The words of a text as cron words, with a gap before each of them. -/
def spread (ws : List (List Char)) : List Token := ws.flatMap fun w => .gap :: tokensFrom .none w

section Word

variable {r r' : List Token} (hw : Text.IsWord w)
include hw

theorem tokensFrom_gap_word (cs : List Char) :
    tokensFrom .gap (w ++ cs) = .gap :: tokensFrom .none (w ++ cs) := by
  obtain ⟨c, w, rfl⟩ := List.exists_cons_of_ne_nil hw.ne_nil
  exact tokensFrom_gap_cons (isGap_of_isWord hw c List.mem_cons_self) _

theorem tokensFrom_word (hc : isGap c = true) (cs : List Char) :
    tokensFrom .none (w ++ c :: cs) = tokensFrom .none w ++ tokensFrom .gap cs :=
  tokensFrom_append_gap Run.none_ne_gap (isGap_of_isWord hw) hc cs

theorem tokensFrom_word_ne_nil : tokensFrom .none w ≠ [] :=
  tokensFrom_ne_nil Run.none_ne_gap (isGap_of_isWord hw) fun _ => hw.ne_nil

theorem gap_not_mem_word : .gap ∉ tokensFrom .none w :=
  gap_not_mem_tokensFrom Run.none_ne_gap (isGap_of_isWord hw)

theorem trails_gap_word (h : Trails r r') :
    Trails (.gap :: (tokensFrom .none w ++ r)) (.gap :: (tokensFrom .none w ++ r')) :=
  .cons (h.append (gap_not_mem_word hw)) fun _ =>
    List.append_ne_nil_of_left_ne_nil (tokensFrom_word_ne_nil hw) r

theorem skipGap_word (r : List Token) :
    skipGap (tokensFrom .none w ++ r) = tokensFrom .none w ++ r := by
  obtain ⟨t, ts, he⟩ := List.exists_cons_of_ne_nil (tokensFrom_word_ne_nil hw)
  have hgap := gap_not_mem_word hw
  rw [he] at hgap ⊢
  cases t <;> simp_all [skipGap]

end Word

/-- In front of the words there is one gap, if any. -/
theorem skipGap_skipGap_spread (hws : ∀ w ∈ ws, Text.IsWord w) :
    skipGap (skipGap (spread ws)) = skipGap (spread ws) := by
  cases ws with
  | nil => rfl
  | cons w ws => exact skipGap_word (hws w List.mem_cons_self) (spread ws)

theorem OnlyGaps.of_cons (h : OnlyGaps (c :: cs)) : OnlyGaps cs :=
  fun d hd => h d (List.mem_cons_of_mem c hd)

theorem OnlyGaps.of_append (h : OnlyGaps (w ++ cs)) : OnlyGaps cs :=
  fun d hd => h d (List.mem_append_right w hd)

/-- Behind a gap the cron words of a text are those of its words, but for a gap at the end. -/
theorem trails_tokensFrom_gap (h : Text.Spaced ws cs) (hcs : OnlyGaps cs) :
    Trails (spread ws) (tokensFrom .gap cs) := by
  -- A further blank character makes no other gap, and each word ends the gap in front of it.
  induction h with
  | nil => exact .gap
  | blank hc _ ih =>
    rw [tokensFrom_gap_cons_gap (hcs _ List.mem_cons_self hc)]
    exact ih hcs.of_cons
  | @last w hw =>
    have hgap := tokensFrom_gap_word hw []
    rw [List.append_nil] at hgap
    rw [hgap]
    simpa [spread] using trails_gap_word hw .nil
  | word hw hc _ ih =>
    have hg := hcs.of_append _ List.mem_cons_self hc
    rw [tokensFrom_gap_word hw, tokensFrom_word hw hg]
    exact trails_gap_word hw (ih hcs.of_append.of_cons)

/-- From the start, there may be no gap before the first one of them. -/
theorem trails_tokensFrom_none (h : Text.Spaced ws cs) (hcs : OnlyGaps cs) :
    Trails (spread ws) (tokensFrom .none cs) ∨
      Trails (skipGap (spread ws)) (tokensFrom .none cs) := by
  cases h with
  | nil => exact .inl .nil
  | blank hc h =>
    rw [tokensFrom_cons_gap Run.none_ne_gap (hcs _ List.mem_cons_self hc)]
    exact .inl (trails_tokensFrom_gap h hcs.of_cons)
  | last hw => exact .inr (by simpa [spread, skipGap] using Trails.nil.append (gap_not_mem_word hw))
  | word hw hc h =>
    rw [tokensFrom_word hw (hcs.of_append _ List.mem_cons_self hc)]
    have hrest := trails_tokensFrom_gap h hcs.of_append.of_cons
    exact .inr (hrest.append (gap_not_mem_word hw))

end Cron

end Pipeline
