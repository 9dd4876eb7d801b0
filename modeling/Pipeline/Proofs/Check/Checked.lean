import Pipeline.Proofs.Check.Relocation

/-!
# Every check adds at the end

`Checked`: a value of any type that has a check, lists of supplies among them.
`Checked.check_eq_append`: wherever the value stands and whatever was found before, its check adds
what it reports at the root, in order, with every path continued from the path of the value.
-/

namespace Pipeline

/-- A value that is checked. -/
inductive Checked where
  | cache (c : Cache)
  | envVar (v : EnvVar)
  | service (s : Service)
  | paramSpec (p : ParamSpec)
  | paramSupply (p : ParamSupply)
  | supplies (ps : List ParamSupply)
  | jobDependency (d : JobDependency)
  | projectDependency (d : ProjectDependency)
  | report (r : Report)
  | action (a : Action)
  | retryPolicy (p : RetryPolicy)
  | trigger (t : Trigger)
  | job (j : Job)
  | spec (s : Spec)

namespace Checked

/-- The check of a value. -/
def check : Checked → Check
  | .cache c => c.check
  | .envVar v => v.check
  | .service s => s.check
  | .paramSpec p => p.check
  | .paramSupply p => p.check
  | .supplies ps => ParamSupply.checkAll ps
  | .jobDependency d => d.check
  | .projectDependency d => d.check
  | .report r => r.check
  | .action a => a.check
  | .retryPolicy p => p.check
  | .trigger t => t.check
  | .job j => j.check
  | .spec s => s.check

instance (x : Checked) : Check.Relocatable x.check := by
  cases x <;> unfold check <;> infer_instance

/-- What was found before stays in front, and what the check adds depends neither on it nor on
the path but for the start of each path. -/
theorem check_eq_append (x : Checked) (path : FieldPath) (found : Violations) :
    x.check path found = found ++ (x.check FieldPath.root []).map (Violation.below path) :=
  Check.Relocatable.eq_append path found

end Checked

end Pipeline
