import Pipeline.Proofs.Cron.Readers
import Pipeline.Upcoming

/-!
# Spellings of a schedule

* `Cron.Schedule.ofText_eq_of_joinWords_eq`: texts with the same words stand for the same schedule.
* `Trigger.fireTimes_eq_of_joinWords_eq`: so the expressions that an announced time is compared with
  are those of schedules that fire at the same times.
-/

namespace Pipeline

namespace Cron

namespace Schedule

/-- A text stands for what its words stand for. -/
theorem ofText_eq_spread {s : String} (hs : OnlyGaps s.toList) :
    ofText s = ofTokens (spread (Text.wordsOf s.toList)) := by
  have hspaced := Text.spaced_wordsOf s.toList
  obtain h | h := trails_tokensFrom_none hspaced hs
  · exact (ofTokens_eq_of_trails h).symm
  · calc ofText s
      _ = ofTokens (skipGap (spread (Text.wordsOf s.toList))) := (ofTokens_eq_of_trails h).symm
      _ = ofTokens (spread (Text.wordsOf s.toList)) :=
        ofTokens_skipGap (skipGap_skipGap_spread hspaced.isWord)

theorem ofText_eq_of_joinWords_eq {a b : String} (ha : OnlyGaps a.toList) (hb : OnlyGaps b.toList)
    (h : Text.joinWords a = Text.joinWords b) : ofText a = ofText b := by
  rw [ofText_eq_spread ha, ofText_eq_spread hb, Text.joinWords_eq_iff.mp h]

end Schedule

end Cron

namespace Trigger

/-- Two expressions that hold no other blank characters than spaces, tabs and line ends, and that
are equal when their words are joined by single spaces, are both refused, or both are read as the
same schedule. Either way, the triggers with these expressions fire at the same times. -/
theorem fireTimes_eq_of_joinWords_eq {a b : String} (ha : Cron.OnlyGaps a.toList)
    (hb : Cron.OnlyGaps b.toList) (h : Text.joinWords a = Text.joinWords b) :
    (((∃ e, Cron.Schedule.ofText a = .error e) ∧ ∃ e, Cron.Schedule.ofText b = .error e) ∨
      ∃ s, Cron.Schedule.ofText a = .ok s ∧ Cron.Schedule.ofText b = .ok s) ∧
    ∀ (branches branches' : List String) (after : Instant) (count : Nat),
      (schedule a branches).fireTimes after count =
        (schedule b branches').fireTimes after count := by
  have hread := Cron.Schedule.ofText_eq_of_joinWords_eq ha hb h
  constructor
  · cases hb : Cron.Schedule.ofText b with
    | error e => exact .inl ⟨⟨e, hread.trans hb⟩, e, rfl⟩
    | ok s => exact .inr ⟨s, hread.trans hb, rfl⟩
  · intro branches branches' after count
    simp only [fireTimes, schedule?, hread]

theorem fireTimes_eq_of_joinWords_eq_nightly :
    (∃ s, Cron.Schedule.ofText " 0 30\t2 * * *\r\n" = .ok s ∧
      Cron.Schedule.ofText "0 30 2 * * *" = .ok s) ∧
    ∀ branches after count, (schedule " 0 30\t2 * * *\r\n" branches).fireTimes after count =
      (schedule "0 30 2 * * *" []).fireTimes after count := by
  have hread : ∀ e, Cron.Schedule.ofText "0 30 2 * * *" ≠ .error e := by
    intro e he
    have hok : (Cron.Schedule.ofText "0 30 2 * * *").toOption.isSome = true := by decide +kernel
    rw [he] at hok
    cases hok
  obtain ⟨⟨-, e, he⟩ | hs, htimes⟩ :=
    @fireTimes_eq_of_joinWords_eq " 0 30\t2 * * *\r\n" "0 30 2 * * *" (by decide) (by decide)
      (by decide +kernel)
  · exact absurd he (hread e)
  · exact ⟨hs, fun branches => htimes branches []⟩

/-- A vertical tab is a blank character that makes up no gap: it does not matter for the words of an
expression, but no expression with it is read. -/
example : Text.joinWords "0 30 2 * * *\x0b" = Text.joinWords "0 30 2 * * *" ∧
    (schedule "0 30 2 * * *\x0b" []).schedule? = none ∧
    (schedule "0 30 2 * * *" []).schedule?.isSome := by
  decide +kernel

end Trigger

end Pipeline
