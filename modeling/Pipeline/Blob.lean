import Pipeline.Id
import Pipeline.Instant
import Pipeline.Source

/-!
# References to blobs

A pack refers to blobs, which several packs may share. A blob can be dropped once no live
reference leads to it. A reference that is to be deleted is not live any more.
-/

namespace Pipeline

/-- A reference from a pack to a blob. -/
structure BlobReference where
  id : ReferenceId
  packId : PackId
  blobId : BlobId
  pendingDelete : Bool
  createdAt : Instant
  deriving DecidableEq, Repr, Inhabited

namespace BlobReference

/-- Whether a reference may be used. -/
def isLive (r : BlobReference) : Bool := !r.pendingDelete

/-- Whether a reference leads from a pack to a blob. -/
def connects (r : BlobReference) (pack : PackId) (blob : BlobId) : Bool :=
  r.packId == pack && r.blobId == blob

/-- Reads an id, which stands without the mark of its kind. -/
def decodeId? {kind : IdKind} (s : Source) : Option (Id kind) :=
  (s.text?.bind Uuid.ofText?).map Id.mk

/-- Reads the written form. -/
def decode? (s : Source) : Option BlobReference := do
  let r ← s.record? ["id", "pack_id", "blob_id", "pending_delete", "created_at"]
  let id ← r.required "id" decodeId?
  let packId ← r.required "pack_id" decodeId?
  let blobId ← r.required "blob_id" decodeId?
  let pendingDelete ← r.withDefault "pending_delete" false Source.flag?
  let createdAt ← r.required "created_at" fun s => s.text?.bind Instant.ofText?
  some { id, packId, blobId, pendingDelete, createdAt }

/-- The written form. -/
def encode (r : BlobReference) : Json :=
  .obj [("id", .str r.id.uuid.text), ("pack_id", .str r.packId.uuid.text),
    ("blob_id", .str r.blobId.uuid.text), ("pending_delete", .bool r.pendingDelete),
    ("created_at", .str r.createdAt.text)]

end BlobReference

end Pipeline
