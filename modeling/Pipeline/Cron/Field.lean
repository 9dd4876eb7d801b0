import Pipeline.Cron.Token

/-!
# Fields of cron expressions

A field says which values one unit of time may have: a list of items, each of which is a set of
values, possibly thinned out by a step.

* `Cron.Unit`: the units, with their bounds and names.
* `Cron.Error`: why a field is refused.
* `Cron.Item`: the items as they are written.
* `Cron.Unit.values`: the values that a list of items stands for.
-/

namespace Pipeline

namespace Cron

/-- A unit of time. -/
inductive Unit where
  | second
  | minute
  | hour
  | dayOfMonth
  | month
  | dayOfWeek
  | year
  deriving DecidableEq, Repr, Inhabited

namespace Unit

/-- The name of the field of a unit. -/
def name : Unit → String
  | .second => "Seconds"
  | .minute => "Minutes"
  | .hour => "Hours"
  | .dayOfMonth => "Days of Month"
  | .month => "Months"
  | .dayOfWeek => "Days of Week"
  | .year => "Years"

/-- The least value. -/
def least : Unit → Nat
  | .second | .minute | .hour => 0
  | .dayOfMonth | .month | .dayOfWeek => 1
  | .year => 1970

/-- The greatest value. -/
def greatest : Unit → Nat
  | .second | .minute => 59
  | .hour => 23
  | .dayOfMonth => 31
  | .month => 12
  | .dayOfWeek => 7
  | .year => 2100

/-- Whether a question mark may stand for all values. -/
def allowsAny : Unit → Bool
  | .dayOfMonth | .dayOfWeek => true
  | _ => false

end Unit

/-- Why an expression is refused. -/
inductive Error where
  /-- The text is no cron expression. -/
  | malformed
  | tooSmall (unit : Unit) (n : Nat)
  | tooLarge (unit : Unit) (n : Nat)
  | badRange (unit : Unit) (first last : Nat)
  | badNames (unit : Unit) (first last : List Char)
  | zeroStep
  | badStep (unit : Unit) (step : Nat)
  | noNames (unit : Unit) (name : List Char)
  | unknownMonth (name : List Char)
  | unknownDay (name : List Char)
  deriving DecidableEq, Repr, Inhabited

/-- The wording of an error. A text that is no expression at all has none. -/
def Error.message : Error → String
  | .malformed => ""
  | .tooSmall unit n =>
    unit.name ++ " must be greater than or equal to " ++ Text.ofNat unit.least ++ ". ('" ++
      Text.ofNat n ++ "' specified.)"
  | .tooLarge unit n =>
    unit.name ++ " must be less than " ++ Text.ofNat unit.greatest ++ ". ('" ++ Text.ofNat n ++
      "' specified.)"
  | .badRange unit first last =>
    "Invalid range for " ++ unit.name ++ ": " ++ Text.ofNat first ++ "-" ++ Text.ofNat last
  | .badNames unit first last =>
    "Invalid named range for " ++ unit.name ++ ": " ++ String.ofList first ++ "-" ++
      String.ofList last
  | .zeroStep => "range step cannot be zero"
  | .badStep unit step =>
    unit.name ++ " must be between 1 and " ++ Text.ofNat unit.greatest ++ ". ('" ++
      Text.ofNat step ++ "' specified.)"
  | .noNames unit name =>
    "The '" ++ unit.name ++ "' field does not support using names. '" ++ String.ofList name ++
      "' specified."
  | .unknownMonth name => "'" ++ String.ofList name ++ "' is not a valid month name."
  | .unknownDay name => "'" ++ String.ofList name ++ "' is not a valid day of the week."

/-! ## Values -/

/-- The names of the months, short and long. -/
def monthNames : List (List String) :=
  [["jan", "january"], ["feb", "february"], ["mar", "march"], ["apr", "april"], ["may"],
   ["jun", "june"], ["jul", "july"], ["aug", "august"], ["sep", "september"],
   ["oct", "october"], ["nov", "november"], ["dec", "december"]]

/-- The names of the days of the week, short and long. -/
def dayNames : List (List String) :=
  [["sun", "sunday"], ["mon", "monday"], ["tue", "tues", "tuesday"], ["wed", "wednesday"],
   ["thu", "thurs", "thursday"], ["fri", "friday"], ["sat", "saturday"]]

/-- The position of a name, counted from one. The case of its letters does not matter. -/
def nameIndex? (names : List (List String)) (name : List Char) : Option Nat :=
  let s := String.ofList (name.map Char.toLower)
  (names.findIdx? fun spellings => spellings.contains s).map (· + 1)

namespace Unit

/-- The value that a name stands for. -/
def named (unit : Unit) (name : List Char) : Except Error Nat :=
  match unit with
  | .month =>
    match nameIndex? monthNames name with
    | some n => .ok n
    | none => .error (.unknownMonth name)
  | .dayOfWeek =>
    match nameIndex? dayNames name with
    | some n => .ok n
    | none => .error (.unknownDay name)
  | unit => .error (.noNames unit name)

/-- A value within the bounds of the unit. -/
def bounded (unit : Unit) (n : Nat) : Except Error Nat :=
  if n < unit.least then .error (.tooSmall unit n)
  else if unit.greatest < n then .error (.tooLarge unit n)
  else .ok n

/-- The values from `first` to `last`. -/
def span (first last : Nat) : List Nat := (List.range (last + 1 - first)).map (first + ·)

/-- All values. -/
def all (unit : Unit) : List Nat := span unit.least unit.greatest

end Unit

/-- A set of values as it is written. -/
inductive Choice where
  | all
  | point (n : Nat)
  | range (first last : Nat)
  | named (first last : List Char)
  deriving DecidableEq, Repr, Inhabited

/-- An item of a field. -/
inductive Item where
  | choice (c : Choice)
  | steps (c : Choice) (step : Nat)
  | name (name : List Char)
  deriving DecidableEq, Repr, Inhabited

/-- The values at the positions 0, `step`, twice `step` and so on. -/
def everyNth (step : Nat) (ns : List Nat) : List Nat :=
  (ns.zipIdx.filter fun (_, i) => i % step == 0).map Prod.fst

namespace Unit

/-- The values of a set. -/
def choiceValues (unit : Unit) : Choice → Except Error (List Nat)
  | .all => .ok unit.all
  | .point n => do .ok [← unit.bounded n]
  | .range first last =>
    if unit.least ≤ first ∧ first ≤ last ∧ last ≤ unit.greatest then .ok (span first last)
    else .error (.badRange unit first last)
  | .named first last => do
    let a ← unit.named first
    let b ← unit.named last
    if b < a then .error (.badNames unit first last) else .ok (span a b)

/-- The values of a set that a step thins out: a single value is taken as the first one of all
that follow it. -/
def steppedValues (unit : Unit) : Choice → Except Error (List Nat)
  | .point n => do .ok (span (← unit.bounded n) unit.greatest)
  | c => unit.choiceValues c

/-- The values of an item. -/
def itemValues (unit : Unit) : Item → Except Error (List Nat)
  | .choice c => unit.choiceValues c
  | .name name => do .ok [← unit.named name]
  | .steps c step =>
    if step = 0 then .error .zeroStep
    else if unit.greatest < step then .error (.badStep unit step)
    else do .ok (everyNth step (← unit.steppedValues c))

/-- The values of a list of items, in order. -/
def values (unit : Unit) (items : List Item) : Except Error (List Nat) := do
  let sets ← items.mapM unit.itemValues
  .ok (unit.all.filter fun n => sets.any fun set => set.contains n)

end Unit

/-! ## Written fields -/

/-- The words without a gap at the start. -/
def skipGap : List Token → List Token
  | .gap :: ts => ts
  | ts => ts

/-- How large numbers may be. -/
def numberLimit : Nat := Nat.pow 2 32

/-- Reads a number, with gaps around it. -/
def number? (ts : List Token) : Option (Nat × List Token) :=
  match skipGap ts with
  | .number n :: rest => if n < numberLimit then some (n, skipGap rest) else none
  | _ => none

/-- Reads a name, with gaps around it. -/
def name? (ts : List Token) : Option (List Char × List Token) :=
  match skipGap ts with
  | .name letters :: rest => some (letters, skipGap rest)
  | _ => none

/-- Passes a sign. -/
def sign? (c : Char) : List Token → Option (List Token)
  | .sign d :: rest => if c = d then some rest else none
  | _ => none

/-- Reads two things with a hyphen between them. -/
def pair? {α : Type} (read : List Token → Option (α × List Token)) (ts : List Token) :
    Option ((α × α) × List Token) := do
  let (a, ts) ← read ts
  let ts ← sign? '-' ts
  let (b, ts) ← read ts
  some ((a, b), ts)

/-- Reads a star, or a question mark where one is allowed. -/
def all? (any : Bool) : List Token → Option (List Token)
  | .sign c :: rest => if c = '*' ∨ (any ∧ c = '?') then some rest else none
  | _ => none

/-- Reads a set of values. -/
def choice? (any : Bool) (ts : List Token) : Option (Choice × List Token) :=
  match all? any ts, pair? number? ts, number? ts, pair? name? ts with
  | some rest, _, _, _ => some (.all, rest)
  | _, some ((a, b), rest), _, _ => some (.range a b, rest)
  | _, _, some (n, rest), _ => some (.point n, rest)
  | _, _, _, some ((a, b), rest) => some (.named a b, rest)
  | _, _, _, _ => none

/-- Reads a set of values that a step follows. -/
def steps? (any : Bool) (ts : List Token) : Option (Item × List Token) := do
  let (c, ts) ← choice? any ts
  let ts ← sign? '/' ts
  let (step, ts) ← number? ts
  some (.steps c step, ts)

/-- Reads an item. -/
def item? (any : Bool) (ts : List Token) : Option (Item × List Token) :=
  match steps? any ts, choice? any ts, name? ts with
  | some found, _, _ => some found
  | _, some (c, rest), _ => some (.choice c, rest)
  | _, _, some (name, rest) => some (.name name, rest)
  | _, _, _ => none

/-- Reads further items behind commas, `fuel` at the most. A comma that no item follows is
left. -/
def moreItems (any : Bool) : Nat → List Token → List Item × List Token
  | 0, ts => ([], ts)
  | fuel + 1, ts =>
    match (sign? ',' ts).bind (item? any) with
    | some (i, rest) =>
      let (items, rest) := moreItems any fuel rest
      (i :: items, rest)
    | none => ([], ts)

/-- Reads a list of items, with gaps around it. -/
def items? (any : Bool) (ts : List Token) : Option (List Item × List Token) :=
  match item? any (skipGap ts) with
  | some (i, rest) =>
    let (items, rest) := moreItems any rest.length rest
    some (i :: items, skipGap rest)
  | none => none

namespace Unit

/-- Reads the field of a unit. -/
def field (unit : Unit) (ts : List Token) : Except Error (List Nat × List Token) :=
  match items? unit.allowsAny ts with
  | none => .error .malformed
  | some (items, rest) => do .ok (← unit.values items, rest)

end Unit

end Cron

end Pipeline
