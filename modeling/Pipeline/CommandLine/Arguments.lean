import Pipeline.Text.Split

/-!
# Arguments

An argument that begins with a hyphen names an option, by a letter or by a word. The value of an
option is the next argument, or stands behind the option in the same one. Behind `--` no argument
names an option.

* `ArgumentForm`: the options and values that are expected.
* `ArgumentForm.read?`: reads arguments of a form. Each option has to be given once.
-/

namespace Pipeline

/-- What arguments are expected: options, each with its letter and its word, all of which have to
be given, and values, of which some or all may be missing. -/
structure ArgumentForm where
  options : List (Char × String)
  values : Nat
  deriving DecidableEq, Repr, Inhabited

/-- Arguments that have been read: the values of options by their words, and the other values in
order. -/
structure Arguments where
  options : List (String × String)
  values : List String
  deriving DecidableEq, Repr, Inhabited

namespace Arguments

/-- No arguments. -/
def none : Arguments := ⟨[], []⟩

/-- The value of an option. -/
def option? (a : Arguments) (word : String) : Option String := a.options.lookup word

/-- The value at a position. -/
def value? (a : Arguments) (i : Nat) : Option String := a.values[i]?

/-- The arguments with an option that was not given before. -/
def addOption? (a : Arguments) (word value : String) : Option Arguments :=
  if (a.option? word).isSome then .none
  else some { a with options := a.options ++ [(word, value)] }

end Arguments

/-- What an argument is by itself. -/
inductive ArgumentKind where
  | value
  | endOfOptions
  | option (word : String) (value : Option String)
  | unknownOption
  deriving DecidableEq, Repr, Inhabited

/-- What the next argument may be: anything, the value of an option, or a value only. -/
inductive ArgumentMode where
  | any
  | optionValue (word : String)
  | valuesOnly
  deriving DecidableEq, Repr, Inhabited

namespace ArgumentForm

/-- The option with the given word. -/
def byWord (f : ArgumentForm) (word : List Char) (value : Option (List Char)) : ArgumentKind :=
  match f.options.find? fun o => o.2.toList == word with
  | some (_, word) => .option word (value.map String.ofList)
  | none => .unknownOption

/-- The option with the given letter. What stands behind the letter is its value, with or without
an equals sign between them. -/
def byLetter (f : ArgumentForm) (letter : Char) (behind : List Char) : ArgumentKind :=
  match f.options.lookup letter with
  | none => .unknownOption
  | some word =>
    match behind with
    | [] => .option word none
    | '=' :: value => .option word (some (String.ofList value))
    | value => .option word (some (String.ofList value))

/-- What an argument is. A single hyphen is a value. -/
def kindOf (f : ArgumentForm) (argument : String) : ArgumentKind :=
  match argument.toList with
  | ['-', '-'] => .endOfOptions
  | '-' :: '-' :: cs =>
    let (word, value) := Text.cutAt '=' cs
    f.byWord word value
  | '-' :: letter :: behind => f.byLetter letter behind
  | _ => .value

/-- The arguments with one more value, if there is room for it. -/
def addValue? (f : ArgumentForm) (a : Arguments) (value : String) : Option Arguments :=
  if a.values.length < f.values then some { a with values := a.values ++ [value] } else none

/-- One argument further. -/
def step? (f : ArgumentForm) (s : ArgumentMode × Arguments) (argument : String) :
    Option (ArgumentMode × Arguments) :=
  match s with
  | (.valuesOnly, a) => (f.addValue? a argument).map fun a => (.valuesOnly, a)
  | (.optionValue word, a) =>
    match f.kindOf argument with
    | .value => (a.addOption? word argument).map fun a => (.any, a)
    | _ => none
  | (.any, a) =>
    match f.kindOf argument with
    | .value => (f.addValue? a argument).map fun a => (.any, a)
    | .endOfOptions => some (.valuesOnly, a)
    | .option word none => some (.optionValue word, a)
    | .option word (some value) => (a.addOption? word value).map fun a => (.any, a)
    | .unknownOption => none

/-- Whether arguments are complete: no option lacks its value, and all options are given. -/
def isComplete (f : ArgumentForm) : ArgumentMode × Arguments → Bool
  | (.optionValue _, _) => false
  | (_, a) => f.options.all fun o => (a.option? o.2).isSome

/-- Reads arguments of a form. -/
def read? (f : ArgumentForm) (arguments : List String) : Option Arguments :=
  (arguments.foldlM f.step? (ArgumentMode.any, Arguments.none)).bind fun s =>
    if f.isComplete s then some s.2 else none

end ArgumentForm

end Pipeline
