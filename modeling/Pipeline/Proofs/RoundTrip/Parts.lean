import Pipeline.Proofs.RoundTrip.Source
import Pipeline.Action
import Pipeline.Cache
import Pipeline.Credential
import Pipeline.Dependency
import Pipeline.Report
import Pipeline.Retry
import Pipeline.Service

/-!
# The parts of a job are read as they are written

For each part of a job what is written for it is read as the same part: `Cache.decode?_encode`,
`ParamSpec.decode?_encode` and so on. A record is written with all of its fields, so no field is
left to its default when it is read.
-/

namespace Pipeline

open Source

variable {settled : Bool}

/-! ## Records -/

@[simp] theorem Cache.decode?_encode (c : Cache) : decode? (.json settled c.encode) = some c := by
  simp [decode?, encode, record?_obj]

@[simp] theorem Credential.decode?_encode (c : Credential) :
    decode? (.json settled c.encode) = some c := by
  simp [decode?, encode, record?_obj]

@[simp] theorem EnvVar.decode?_encode (v : EnvVar) : decode? (.json settled v.encode) = some v := by
  simp [decode?, encode, record?_obj]

@[simp] theorem Service.decode?_encode (s : Service) :
    decode? (.json settled s.encode) = some s := by
  simp [decode?, encode, record?_obj]

@[simp] theorem ParamSupply.decode?_encode (p : ParamSupply) :
    decode? (.json settled p.encode) = some p := by
  simp [decode?, encode, record?_obj]

@[simp] theorem JobDependency.decode?_encode (d : JobDependency) :
    decode? (.json settled d.encode) = some d := by
  simp [decode?, encode, record?_obj]

@[simp] theorem RetryPolicy.ofRecord?_parts (p : RetryPolicy) :
    ofRecord? (parts settled p.encodeFields) = some p := by
  simp [ofRecord?, encodeFields]

@[simp] theorem RetryPolicy.decode?_obj (p : RetryPolicy) :
    decode? (.json settled (.obj p.encodeFields)) = some p := by
  have hrecord : record? fieldNames (.json settled (.obj p.encodeFields)) =
      some (parts settled p.encodeFields) := record?_obj rfl (by decide)
  rw [decode?, hrecord, Option.bind_some, ofRecord?_parts]

/-! ## Values of several kinds -/

@[simp] theorem ParamKind.decode?_encode (k : ParamKind) :
    decode? (.json settled k.encode) = some k := by
  cases k with
  | text => exact read_kind (by simp) rfl rfl
  | boolean => exact read_kind (by simp) rfl rfl
  | integer => exact read_kind (by simp) rfl rfl
  | choice choices =>
    refine read_kind (by simp [kindKey]) rfl ?_
    simp [record?_obj]
  | secret => exact read_kind (by simp) rfl rfl

@[simp] theorem ParamSpec.decode?_encode (p : ParamSpec) :
    decode? (.json settled p.encode) = some p := by
  simp [decode?, encode, record?_obj]

@[simp] theorem BuildSelector.decode?_encode (b : BuildSelector) :
    decode? (.json settled b.encode) = some b := by
  cases b with
  | lastFinished => exact read_kind (by simp) rfl rfl
  | lastFinishedOnBranch branch =>
    refine read_kind (by simp [kindKey]) rfl ?_
    simp [record?_obj]
  | byNumber number =>
    refine read_kind (by simp [kindKey]) rfl ?_
    simp [record?_obj]
  | byQuery query =>
    refine read_kind (by simp [kindKey]) rfl ?_
    simp [record?_obj]

@[simp] theorem ProjectDependency.decode?_encode (d : ProjectDependency) :
    decode? (.json settled d.encode) = some d := by
  simp [decode?, encode, record?_obj]

@[simp] theorem Report.decode?_encode (r : Report) : decode? (.json settled r.encode) = some r := by
  cases r with
  | files format name patterns =>
    have hr : readers.lookup format.name = some (decodeFiles? format) := by cases format <;> rfl
    refine read_kind (by simp [kindKey]) hr ?_
    simp [decodeFiles?, record?_obj]
  | markdown name patterns startPage =>
    refine read_kind (by simp [kindKey]) rfl ?_
    simp [decodeMarkdown?, record?_obj]

@[simp] theorem ActionKind.decode?_obj (k : ActionKind) :
    decode? (.json settled (.obj k.encodeFields)) = some k := by
  cases k with
  | createTag tagName tagMessage =>
    refine read_kind (by simp [kindKey]) rfl ?_
    simp [decodeCreateTag?, record?_obj]
  | runJob jobName jobParams =>
    refine read_kind (by simp [kindKey]) rfl ?_
    simp [decodeRunJob?, record?_obj]
  | sendNotification receivers =>
    refine read_kind (by simp [kindKey]) rfl ?_
    simp [decodeSendNotification?, record?_obj]

/-- No field of what is done is one of the action itself. -/
theorem ActionKind.not_mem_of_mem_encodeFields (k : ActionKind) :
    ∀ f ∈ k.encodeFields, f.1 ∉ ["condition"] := by
  cases k <;> simp [encodeFields]

@[simp] theorem Action.decode?_encode (a : Action) : decode? (.json settled a.encode) = some a := by
  have hmembers : members? ["condition"] (.json settled a.encode) =
      some (parts settled [("condition", .str a.condition)],
        .json true (.obj a.kind.encodeFields)) :=
    members?_obj [("condition", .str a.condition)] rfl (by decide)
      a.kind.not_mem_of_mem_encodeFields
  simp [decode?, hmembers]

end Pipeline
