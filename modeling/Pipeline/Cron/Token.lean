import Pipeline.Text.Number

/-!
# Words of cron expressions

* `Cron.Token`: numbers, names, signs, and the gaps between them.
* `Cron.tokens`: the words of a text. Every text has some.
-/

namespace Pipeline

namespace Cron

/-- A word of a cron expression. -/
inductive Token where
  /-- A run of blanks. -/
  | gap
  /-- A run of decimal digits. -/
  | number (n : Nat)
  /-- A run of letters. -/
  | name (letters : List Char)
  /-- Any other character. -/
  | sign (c : Char)
  deriving DecidableEq, Repr, Inhabited

/-- The characters of gaps. -/
def isGap (c : Char) : Bool := c == ' ' || c == '\t' || c == '\r' || c == '\n'

/-- The characters of names. -/
def isLetter (c : Char) : Bool :=
  (65 ≤ c.toNat && c.toNat ≤ 90) || (97 ≤ c.toNat && c.toNat ≤ 122)

/-- The value of a run of digits. -/
def numberValue (ds : List Char) : Nat := ds.foldl (fun n c => n * 10 + (c.toNat - 48)) 0

/-- A run of characters of one kind that is not complete yet, in reverse. -/
inductive Run where
  | none
  | gap
  | digits (read : List Char)
  | letters (read : List Char)
  deriving Inhabited

/-- The word that a run makes up. -/
def Run.finish : Run → List Token
  | .none => []
  | .gap => [.gap]
  | .digits read => [.number (numberValue read.reverse)]
  | .letters read => [.name read.reverse]

/-- The words of a text behind a run. -/
def tokensFrom : Run → List Char → List Token
  | run, [] => run.finish
  | run, c :: cs =>
    if isGap c then
      match run with
      | .gap => tokensFrom .gap cs
      | run => run.finish ++ tokensFrom .gap cs
    else if Text.isDecimalDigit c then
      match run with
      | .digits read => tokensFrom (.digits (c :: read)) cs
      | run => run.finish ++ tokensFrom (.digits [c]) cs
    else if isLetter c then
      match run with
      | .letters read => tokensFrom (.letters (c :: read)) cs
      | run => run.finish ++ tokensFrom (.letters [c]) cs
    else run.finish ++ .sign c :: tokensFrom .none cs

/-- The words of a text. -/
def tokens (s : String) : List Token := tokensFrom .none s.toList

end Cron

end Pipeline
