import Pipeline.Proofs.RoundTrip.Event
import Pipeline.Proofs.RoundTrip.Parts
import Pipeline.Spec

/-!
# Specifications are read as they are written

* `Job.decode?_encode`: the fields of the retry policy stand among those of the job, and each of
  the two readers takes its own.
* `Spec.decode?_encode`: a specification is read as it was written.
* `Spec.roundTrips_format`: so it is with specifications, with every part of one, and with events.
-/

namespace Pipeline

open Source

variable {settled : Bool}

/-- No field of a retry policy is one of the job itself. -/
theorem RetryPolicy.not_mem_of_mem_encodeFields (p : RetryPolicy) :
    ∀ f ∈ p.encodeFields, f.1 ∉ Job.fieldNames := by
  simp [encodeFields, Job.fieldNames]

@[simp] theorem Job.decode?_encode (j : Job) : decode? (.json settled j.encode) = some j := by
  rw [decode?, encode, members?_obj _ ?names ?distinct j.retry.not_mem_of_mem_encodeFields]
  case names => rfl
  case distinct => decide
  -- what is left is to find each field by its name
  simp [-Option.bind_eq_bind, some_bind]

@[simp] theorem Spec.decode?_encode (s : Spec) : decode? (.json settled s.encode) = some s := by
  simp [decode?, encode, record?_obj]

/-- What is written for a specification, for a part of one, or for an event is read as the same
value; and a value that was read from any JSON value is read again from what is written for it. -/
theorem Spec.roundTrips_format :
    RoundTrips Spec.encode Spec.decode? ∧
    RoundTrips Job.encode Job.decode? ∧
    RoundTrips ParamSpec.encode ParamSpec.decode? ∧
    RoundTrips ParamSupply.encode ParamSupply.decode? ∧
    RoundTrips Cache.encode Cache.decode? ∧
    RoundTrips Credential.encode Credential.decode? ∧
    RoundTrips JobDependency.encode JobDependency.decode? ∧
    RoundTrips ProjectDependency.encode ProjectDependency.decode? ∧
    RoundTrips Service.encode Service.decode? ∧
    RoundTrips Report.encode Report.decode? ∧
    RoundTrips Trigger.encode Trigger.decode? ∧
    RoundTrips Action.encode Action.decode? ∧
    RoundTrips RetryPolicy.encode RetryPolicy.decode? ∧
    RoundTrips Event.encode Event.decode? :=
  ⟨.of_decode_encode fun s _ => s.decode?_encode,
    .of_decode_encode fun j _ => j.decode?_encode,
    .of_decode_encode fun p _ => p.decode?_encode,
    .of_decode_encode fun p _ => p.decode?_encode,
    .of_decode_encode fun c _ => c.decode?_encode,
    .of_decode_encode fun c _ => c.decode?_encode,
    .of_decode_encode fun d _ => d.decode?_encode,
    .of_decode_encode fun d _ => d.decode?_encode,
    .of_decode_encode fun s _ => s.decode?_encode,
    .of_decode_encode fun r _ => r.decode?_encode,
    .of_decode_encode fun t _ => t.decode?_encode,
    .of_decode_encode fun a _ => a.decode?_encode,
    .of_decode_encode fun p _ => p.decode?_obj,
    .of_decode_encode fun e _ => e.decode?_encode⟩

end Pipeline
