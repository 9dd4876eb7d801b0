import Pipeline.Violation
import Pipeline.Duplicates

/-!
# Checks

A check looks at a value that stands at some path and adds what it finds to the problems found
so far. Checks never stop at the first problem, so they are combined by running them one after
the other.

* `Check.pass`, `Check.require`, `Check.notEmpty`: the elementary checks.
* `Check.field`, `Check.index`, `Check.each`: checks of the parts of a value.
* `Check.all`: every check of a list, in order.
* `Check.noRepeats`: no key of a list occurs twice.
-/

namespace Pipeline

/-- Adds the problems of a value at a path to those found before. -/
abbrev Check := FieldPath → Violations → Violations

namespace Check

/-- Finds nothing. -/
def pass : Check := fun _ found => found

/-- Reports a problem. -/
def fail (message : String) : Check := fun path found => found ++ [⟨path, message⟩]

/-- Reports a problem unless `ok` holds. -/
def require (ok : Bool) (message : String) : Check := if ok then pass else fail message

/-- Checks the value of a field. -/
def field (name : String) (c : Check) : Check := fun path found => c (path.field name) found

/-- Checks the entry at a list position. -/
def index (i : Nat) (c : Check) : Check := fun path found => c (path.index i) found

/-- The first check, then the second one. -/
def andThen (c d : Check) : Check := fun path found => d path (c path found)

/-- Every check of a list, in order. -/
def all : List Check → Check
  | [] => pass
  | c :: cs => andThen c (all cs)

/-- Checks a value if there is one. -/
def optional {α : Type} (c : α → Check) : Option α → Check
  | none => pass
  | some a => c a

/-- Checks the entries of a list whose first one stands at position `i`. -/
def eachFrom {α : Type} (c : α → Check) (i : Nat) : List α → Check
  | [] => pass
  | a :: as => andThen (index i (c a)) (eachFrom c (i + 1) as)

/-- Checks every entry of a list at its position. -/
def each {α : Type} (c : α → Check) (as : List α) : Check := eachFrom c 0 as

/-- What is said of a text that may not be blank, and of a list that may not be empty. -/
def emptyMessage : String := "may not be empty"

/-- A text that is not blank. -/
def notEmpty (s : String) : Check := require (!Text.isBlank s) emptyMessage

/-- Reports every later occurrence of a key: `place` leads from the entry to its key, and
`label` introduces the key in the message. -/
def noRepeats (label : String) (place : Check → Check) (keys : List String) : Check :=
  all ((duplicates keys).map fun (i, key) => index i (place (fail (label ++ ": " ++ key))))

/-- The problems of a document. -/
def report (c : Check) : Violations := c FieldPath.root []

end Check

end Pipeline
