import Pipeline.Text.Blank
import Pipeline.Text.Number

/-!
# Commit ids

A commit is named by 1 to 64 hexadecimal digits, kept in lower case. An id of zeros only stands
for the missing side of a reference that was created or deleted.

* `CommitId`: the canonical ids.
* `CommitId.ofText?`: reads an id in either case, with blanks around it.
* `CommitId.isZero`: the ids whose digits are all zero.
-/

namespace Pipeline

/-- Whether a character is a hexadecimal digit that is not a capital letter. -/
def isCommitDigit (c : Char) : Bool := Text.isHexDigit c && c.toLower == c

/-- Runs of 1 to 64 hexadecimal digits in lower case. -/
def isCommitText (cs : List Char) : Bool :=
  !cs.isEmpty && cs.length ≤ 64 && cs.all isCommitDigit

/-- The id of a commit: hexadecimal digits in lower case. -/
structure CommitId where
  text : String
  isCommit : isCommitText text.toList = true
  deriving DecidableEq

namespace CommitId

instance : Repr CommitId := ⟨fun c _ => repr c.text⟩

/-- A digit of either case becomes a digit of an id. -/
theorem isCommitDigit_toLower {c : Char} (h : Text.isHexDigit c = true) :
    isCommitDigit c.toLower = true := by
  have := Text.of_toNat_lt (p := fun c => !Text.isHexDigit c || isCommitDigit c.toLower)
    (by decide +kernel) (Text.toNat_lt_of_isHexDigit h)
  simpa [h] using this

/-- Whether the characters can be read as an id: 1 to 64 digits of either case. -/
def readable (cs : List Char) : Bool :=
  !cs.isEmpty && cs.length ≤ 64 && cs.all Text.isHexDigit

theorem isCommitText_map_toLower {cs : List Char} (h : readable cs = true) :
    isCommitText (cs.map Char.toLower) = true := by
  simp only [readable, isCommitText, Bool.and_eq_true, List.all_eq_true] at h ⊢
  refine ⟨⟨by simpa using h.1.1, by simpa using h.1.2⟩, fun c hc => ?_⟩
  obtain ⟨d, hd, rfl⟩ := List.mem_map.1 hc
  exact isCommitDigit_toLower (h.2 d hd)

/-- Reads an id: 1 to 64 hexadecimal digits of either case, with blanks around them. -/
def ofText? (s : String) : Option CommitId :=
  if h : readable (Text.trimChars s.toList) = true then
    some ⟨String.ofList ((Text.trimChars s.toList).map Char.toLower), by
      simpa using isCommitText_map_toLower h⟩
  else none

/-- What is said of a text that is no id. -/
def refusal (s : String) : String := "Invalid commit id: " ++ Text.trim s

/-- The id whose forty digits are zero. -/
def zero : CommitId := ⟨String.ofList (List.replicate 40 '0'), by simp; decide +kernel⟩

/-- Whether all digits are zero. -/
def isZero (c : CommitId) : Bool := c.text.toList.all (· == '0')

end CommitId

end Pipeline
