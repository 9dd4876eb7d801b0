import Pipeline.Blob

/-!
# Stores of references

A store holds the references of packs to blobs in the order in which they were accepted.

* `BlobStore.create`: accepts a reference, unless its pack has a live one to its blob.
* `BlobStore.findLive?`, `BlobStore.findUsable?`: live references, of one pack and of any pack.
* `BlobStore.markPendingDelete`: a reference is to be deleted.
* `BlobStore.ensure`: the live reference of a pack to a blob, which is created if there is none.
-/

namespace Pipeline

/-- References in the order in which they were accepted. -/
structure BlobStore where
  references : List BlobReference
  deriving DecidableEq, Repr, Inhabited

/-- Why a store refuses a reference. -/
inductive BlobStoreError where
  /-- The pack has a live reference to the blob. -/
  | alreadyReferenced (pack : PackId) (blob : BlobId)
  deriving DecidableEq, Repr, Inhabited

/-- The wording of an error. -/
def BlobStoreError.message : BlobStoreError → String
  | .alreadyReferenced pack blob =>
    "Blob reference error: pack " ++ pack.text ++ " already references blob " ++ blob.text

namespace BlobStore

/-- The store that holds nothing. -/
def empty : BlobStore := ⟨[]⟩

/-- The live reference of a pack to a blob. -/
def findLive? (s : BlobStore) (pack : PackId) (blob : BlobId) : Option BlobReference :=
  s.references.find? fun r => r.connects pack blob && r.isLive

/-- The first live reference to a blob, of any pack. -/
def findUsable? (s : BlobStore) (blob : BlobId) : Option BlobReference :=
  s.references.find? fun r => r.blobId == blob && r.isLive

/-- Accepts a reference, unless its pack has a live one to its blob. -/
def create (s : BlobStore) (r : BlobReference) : Except BlobStoreError BlobStore :=
  if (s.findLive? r.packId r.blobId).isSome then .error (.alreadyReferenced r.packId r.blobId)
  else .ok ⟨s.references ++ [r]⟩

/-- The references in which the first one with the given id is to be deleted, if there is one. -/
def marked? (id : ReferenceId) : List BlobReference → Option (List BlobReference)
  | [] => none
  | r :: rs =>
    if r.id = id then some ({ r with pendingDelete := true } :: rs)
    else (marked? id rs).map (r :: ·)

/-- The first reference with the given id is to be deleted. Tells whether there is one. -/
def markPendingDelete (s : BlobStore) (id : ReferenceId) : Bool × BlobStore :=
  match marked? id s.references with
  | some references => (true, ⟨references⟩)
  | none => (false, s)

/-- The live reference of a pack to a blob. If there is none, one with the given id and time is
created. -/
def ensure (s : BlobStore) (pack : PackId) (blob : BlobId) (id : ReferenceId) (now : Instant) :
    Except BlobStoreError (BlobReference × BlobStore) :=
  match s.findLive? pack blob with
  | some r => .ok (r, s)
  | none =>
    let r : BlobReference := ⟨id, pack, blob, false, now⟩
    match s.create r with
    | .ok s => .ok (r, s)
    | .error e => .error e

end BlobStore

end Pipeline
