import Pipeline.Graph

/-!
# Reports on specifications

A specification is acceptable when none of its checks finds anything and its jobs can be
ordered. `Spec.validate` reports on both; the order is only looked at once the checks are passed.
-/

namespace Pipeline

/-- What was found out about a specification. -/
structure ValidationReport where
  jobs : Nat
  violations : Violations
  graphError : Option GraphError
  deriving DecidableEq, Repr, Inhabited

namespace ValidationReport

/-- Whether the specification is acceptable. -/
def isValid (r : ValidationReport) : Bool := r.violations.isEmpty && r.graphError.isNone

/-- How many problems were found. -/
def problems (r : ValidationReport) : Nat :=
  r.violations.length + if r.graphError.isSome then 1 else 0

end ValidationReport

namespace PathSegment

/-- The written form of a step. -/
def encode : PathSegment → Json
  | .field name => .str name
  | .index i => .nat i

end PathSegment

namespace Violation

/-- The written form of a problem. -/
def encode (v : Violation) : Json :=
  .obj [("path", .arr (v.path.map PathSegment.encode)), ("message", .str v.message)]

end Violation

namespace ValidationReport

/-- The written form. -/
def encode (r : ValidationReport) : Json :=
  .obj [("valid", .bool r.isValid), ("jobs", .nat r.jobs),
    ("violations", .arr (r.violations.map Violation.encode)),
    ("graph_error", .optionalText (r.graphError.map GraphError.message))]

end ValidationReport

/-- Why the jobs of a specification cannot be ordered, if they cannot. -/
def Spec.graphError? (s : Spec) : Option GraphError :=
  match JobGraph.ofSpec s with
  | .ok _ => none
  | .error e => some e

/-- Reports on a specification. -/
def Spec.validate (s : Spec) : ValidationReport :=
  let found := s.violations
  ⟨s.jobs.length, found, if found.isEmpty then s.graphError? else none⟩

end Pipeline
