import Pipeline.Text.Split
import Pipeline.Uuid

/-!
# Typed ids

Blobs, packs and the references between them are named by unique identifiers. The written form
of an id tells its kind, so that the id of one kind is never read as that of another.

* `Id`: an id of a given kind.
* `Id.text`: the written form, the mark of the kind before the identifier.
* `Id.ofText?`: reads the written form; the mark may be missing.
-/

namespace Pipeline

/-- What an id names. -/
inductive IdKind where
  | blob
  | reference
  | pack
  deriving DecidableEq, Repr, Inhabited

/-- What the written form of an id begins with. -/
def IdKind.mark : IdKind → String
  | .blob => "blb_"
  | .reference => "bref_"
  | .pack => "pck_"

/-- The id of a thing of the given kind. -/
structure Id (kind : IdKind) where
  uuid : Uuid
  deriving DecidableEq, Repr, Inhabited

/-- The id of a blob. -/
abbrev BlobId := Id .blob

/-- The id of a reference from a pack to a blob. -/
abbrev ReferenceId := Id .reference

/-- The id of a pack. -/
abbrev PackId := Id .pack

namespace Id

variable {kind : IdKind}

/-- The written form: the mark of the kind, then the identifier. -/
def text (i : Id kind) : String := kind.mark ++ i.uuid.text

/-- Reads an id. The mark of its own kind may stand before the identifier. -/
def ofText? (kind : IdKind) (s : String) : Option (Id kind) :=
  (Uuid.ofChars? ((Text.afterStart? kind.mark.toList s.toList).getD s.toList)).map Id.mk

end Id

end Pipeline
