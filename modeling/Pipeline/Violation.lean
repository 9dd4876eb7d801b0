import Pipeline.FieldPath

/-!
# Violations

What is wrong with a specification, each problem at the place that it concerns.

* `Violation`: a message at a path.
* `Violations`: the problems found so far, in the order in which they were found. A
  specification is valid when the list is empty.
-/

namespace Pipeline

/-- One structural problem of a specification. -/
structure Violation where
  path : FieldPath
  message : String
  deriving DecidableEq, Repr, Inhabited

/-- Problems in the order in which they were found. -/
abbrev Violations := List Violation

namespace Violation

/-- The written form: the path, if it is not the root, and the message. -/
def text (v : Violation) : String :=
  if v.path.isEmpty then v.message else v.path.text ++ ": " ++ v.message

end Violation

namespace Violations

/-- One line for each problem. -/
def text (vs : Violations) : String :=
  Text.joinWith "\n" (vs.map fun v => "  - " ++ v.text)

/-- What is said of a specification with these problems. -/
def refusal (vs : Violations) : String := "Invalid job specification:\n" ++ vs.text

/-- The messages reported exactly at a path. -/
def messagesAt (vs : Violations) (p : FieldPath) : List String :=
  (vs.filter fun v => v.path = p).map Violation.message

/-- The problems at a path or anywhere below it. -/
def under (vs : Violations) (p : FieldPath) : Violations :=
  vs.filter fun v => v.path.isUnder p

end Violations

end Pipeline
