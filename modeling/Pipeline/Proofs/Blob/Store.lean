import Mathlib.Data.List.Basic
import Pipeline.Blob.Store

/-!
# What the operations of a store do

* `BlobStore.findLive?_eq_none_iff`, `BlobStore.create_of_hasLive`, `BlobStore.marked?_eq_some`, ...:
  what each operation answers, and what it makes of the store.
* `BlobStore.Unambiguous`: no pack has two live references to one blob. Both operations that change
  a store keep this.
* `BlobStore.Continues`: the references of a store stay where they are and what they are, but that
  they may be marked for deletion. Both operations do no more.
-/

namespace Pipeline

namespace BlobReference

@[simp] theorem connects_iff {r : BlobReference} {pack : PackId} {blob : BlobId} :
    r.connects pack blob = true ↔ r.packId = pack ∧ r.blobId = blob := by
  simp [connects]

@[simp] theorem isLive_iff {r : BlobReference} : r.isLive = true ↔ r.pendingDelete = false := by
  simp [isLive]

/-- What may become of a reference that is stored: it is marked, and no mark is taken back. -/
structure Becomes (r r' : BlobReference) : Prop where
  id : r'.id = r.id
  packId : r'.packId = r.packId
  blobId : r'.blobId = r.blobId
  createdAt : r'.createdAt = r.createdAt
  pendingDelete : r.pendingDelete = true → r'.pendingDelete = true

theorem Becomes.refl (r : BlobReference) : r.Becomes r := ⟨rfl, rfl, rfl, rfl, fun h => h⟩

theorem Becomes.trans {r r' r'' : BlobReference} (h : r.Becomes r') (h' : r'.Becomes r'') :
    r.Becomes r'' where
  id := h'.id.trans h.id
  packId := h'.packId.trans h.packId
  blobId := h'.blobId.trans h.blobId
  createdAt := h'.createdAt.trans h.createdAt
  pendingDelete hp := h'.pendingDelete (h.pendingDelete hp)

theorem becomes_marked (r : BlobReference) : r.Becomes { r with pendingDelete := true } :=
  ⟨rfl, rfl, rfl, rfl, fun _ => rfl⟩

end BlobReference

namespace BlobStore

variable {s s' : BlobStore} {r : BlobReference} {pack : PackId} {blob : BlobId}

/-- A reference is stored, is live and leads from a pack to a blob. -/
def HoldsLive (s : BlobStore) (pack : PackId) (blob : BlobId) (r : BlobReference) : Prop :=
  r ∈ s.references ∧ r.packId = pack ∧ r.blobId = blob ∧ r.pendingDelete = false

/-- A live reference of a pack to a blob is stored. -/
def HasLive (s : BlobStore) (pack : PackId) (blob : BlobId) : Prop :=
  ∃ r, s.HoldsLive pack blob r

/-! ## Looking -/

theorem findLive?_eq_some (h : s.findLive? pack blob = some r) : s.HoldsLive pack blob r := by
  have hp := List.find?_some h
  rw [Bool.and_eq_true, BlobReference.connects_iff, BlobReference.isLive_iff, and_assoc] at hp
  exact ⟨List.mem_of_find?_eq_some h, hp⟩

theorem findLive?_eq_none_iff : s.findLive? pack blob = none ↔ ¬ s.HasLive pack blob := by
  simp [findLive?, HasLive, HoldsLive]

theorem findUsable?_eq_some (h : s.findUsable? blob = some r) : s.HoldsLive r.packId blob r := by
  have hp := List.find?_some h
  rw [Bool.and_eq_true, beq_iff_eq, BlobReference.isLive_iff] at hp
  exact ⟨List.mem_of_find?_eq_some h, rfl, hp⟩

theorem findUsable?_eq_none_iff : s.findUsable? blob = none ↔ ∀ pack, ¬ s.HasLive pack blob := by
  simp only [findUsable?, List.find?_eq_none, Bool.and_eq_true, beq_iff_eq,
    BlobReference.isLive_iff, HasLive, HoldsLive, not_exists, not_and]
  exact ⟨fun h _ r hr _ => h r hr, fun h r hr => h r.packId r hr rfl⟩

/-! ## Creating -/

theorem create_of_hasLive (h : s.HasLive r.packId r.blobId) :
    s.create r = .error (.alreadyReferenced r.packId r.blobId) := by
  have hn : s.findLive? r.packId r.blobId ≠ none := fun he => findLive?_eq_none_iff.mp he h
  rw [create, if_pos (Option.isSome_iff_ne_none.mpr hn)]

theorem create_of_not_hasLive (h : ¬ s.HasLive r.packId r.blobId) :
    s.create r = .ok ⟨s.references ++ [r]⟩ := by
  rw [create, findLive?_eq_none_iff.mpr h]
  rfl

/-- A reference is accepted only if it is the first live one of its pack to its blob. -/
theorem of_create_ok (h : s.create r = .ok s') :
    ¬ s.HasLive r.packId r.blobId ∧ s' = ⟨s.references ++ [r]⟩ := by
  by_cases hl : s.HasLive r.packId r.blobId
  · cases (create_of_hasLive hl).symm.trans h
  · cases (create_of_not_hasLive hl).symm.trans h
    exact ⟨hl, rfl⟩

/-! ## Marking -/

/-- Marking takes the first reference of an id, and leaves the others alone. -/
theorem marked?_eq_some {id : ReferenceId} {rs rs' : List BlobReference}
    (h : marked? id rs = some rs') : ∃ before r after, rs = before ++ r :: after ∧ r.id = id ∧
      (∀ x ∈ before, x.id ≠ id) ∧ rs' = before ++ { r with pendingDelete := true } :: after := by
  induction rs generalizing rs' with
  | nil => cases h
  | cons x rs ih =>
    rw [marked?] at h
    split at h
    · cases h
      exact ⟨[], x, rs, rfl, ‹_›, by simp, rfl⟩
    · obtain ⟨_, hm, rfl⟩ := Option.map_eq_some_iff.mp h
      obtain ⟨before, r, after, rfl, hr, hb, rfl⟩ := ih hm
      exact ⟨x :: before, r, after, rfl, hr, List.forall_mem_cons.mpr ⟨‹_›, hb⟩, rfl⟩

theorem marked?_eq_none_iff {id : ReferenceId} {rs : List BlobReference} :
    marked? id rs = none ↔ ∀ r ∈ rs, r.id ≠ id := by
  induction rs with
  | nil => simp [marked?]
  | cons r rs ih => by_cases hr : r.id = id <;> simp [marked?, hr, ih]

/-- A mark of an id that no reference has does nothing. -/
theorem markPendingDelete_of_unknown {id : ReferenceId} (h : ∀ r ∈ s.references, r.id ≠ id) :
    s.markPendingDelete id = (false, s) := by
  rw [markPendingDelete, marked?_eq_none_iff.mpr h]

/-- A mark takes the first reference of the id and leaves the others alone. -/
theorem markPendingDelete_of_known {id : ReferenceId} (h : ∃ r ∈ s.references, r.id = id) :
    ∃ before r after, s.references = before ++ r :: after ∧ r.id = id ∧
      (∀ x ∈ before, x.id ≠ id) ∧ s.references.find? (fun x => x.id = id) = some r ∧
      s.markPendingDelete id = (true, ⟨before ++ { r with pendingDelete := true } :: after⟩) := by
  cases hm : marked? id s.references with
  | none =>
    obtain ⟨r, hr, hid⟩ := h
    exact absurd hid (marked?_eq_none_iff.mp hm r hr)
  | some rs =>
    obtain ⟨before, r, after, hs, hr, hb, rfl⟩ := marked?_eq_some hm
    refine ⟨before, r, after, hs, hr, hb, ?_, ?_⟩
    · rw [hs, List.find?_append, List.find?_eq_none.mpr (by simpa using hb)]
      simp [hr]
    · rw [markPendingDelete, hm]

/-- Marking leaves a store as it is, or marks one of its references. -/
theorem markPendingDelete_cases (s : BlobStore) (id : ReferenceId) :
    (s.markPendingDelete id).2 = s ∨ ∃ before r after, s.references = before ++ r :: after ∧
      (s.markPendingDelete id).2 = ⟨before ++ { r with pendingDelete := true } :: after⟩ := by
  by_cases hk : ∃ r ∈ s.references, r.id = id
  · obtain ⟨before, r, after, hs, -, -, -, hm⟩ := markPendingDelete_of_known hk
    exact .inr ⟨before, r, after, hs, by rw [hm]⟩
  · exact .inl (by rw [markPendingDelete_of_unknown fun r hr hid => hk ⟨r, hr, hid⟩])

/-! ## At most one live reference -/

/-- How many live references lead from a pack to a blob. -/
def liveCount (s : BlobStore) (pack : PackId) (blob : BlobId) : Nat :=
  s.references.countP fun r => r.connects pack blob && r.isLive

/-- No pack has two live references to one blob. -/
def Unambiguous (s : BlobStore) : Prop := ∀ pack blob, s.liveCount pack blob ≤ 1

theorem liveCount_eq_zero_iff : s.liveCount pack blob = 0 ↔ ¬ s.HasLive pack blob := by
  simp [liveCount, HasLive, HoldsLive, List.countP_eq_zero]

theorem unambiguous_empty : empty.Unambiguous := fun _ _ => Nat.zero_le 1

theorem Unambiguous.create (h : s.Unambiguous) (hc : s.create r = .ok s') : s'.Unambiguous := by
  obtain ⟨hl, rfl⟩ := of_create_ok hc
  intro pack blob
  have hsum : liveCount ⟨s.references ++ [r]⟩ pack blob =
      s.liveCount pack blob + if r.connects pack blob && r.isLive then 1 else 0 := by
    simp [liveCount, List.countP_append, List.countP_singleton]
  rw [hsum]
  by_cases hr : r.connects pack blob = true
  · obtain ⟨rfl, rfl⟩ := BlobReference.connects_iff.mp hr
    rw [liveCount_eq_zero_iff.mpr hl, Nat.zero_add]
    split <;> omega
  · simpa [hr] using h pack blob

theorem Unambiguous.markPendingDelete (h : s.Unambiguous) (id : ReferenceId) :
    (s.markPendingDelete id).2.Unambiguous := by
  rcases markPendingDelete_cases s id with he | ⟨before, r, after, hs, he⟩
  · rwa [he]
  · intro pack blob
    refine Nat.le_trans ?_ (h pack blob)
    simp [he, liveCount, hs, List.countP_append, List.countP_cons, BlobReference.isLive]

/-! ## What becomes of stored references -/

/-- Every reference of a store is in another one at the same place, perhaps marked since. -/
def Continues (s s' : BlobStore) : Prop :=
  ∀ (i : Nat) (r : BlobReference), s.references[i]? = some r →
    ∃ r', s'.references[i]? = some r' ∧ r.Becomes r'

theorem Continues.refl (s : BlobStore) : s.Continues s := fun _ r h => ⟨r, h, .refl r⟩

theorem Continues.trans {s'' : BlobStore} (h : s.Continues s') (h' : s'.Continues s'') :
    s.Continues s'' := by
  intro i r hr
  obtain ⟨r', hr', hb⟩ := h i r hr
  obtain ⟨r'', hr'', hb'⟩ := h' i r' hr'
  exact ⟨r'', hr'', hb.trans hb'⟩

theorem continues_of_create (h : s.create r = .ok s') : s.Continues s' := by
  obtain ⟨-, rfl⟩ := of_create_ok h
  intro i x hx
  have hi := (List.getElem?_eq_some_iff.mp hx).1
  exact ⟨x, by rw [List.getElem?_append_left hi, hx], .refl x⟩

theorem continues_markPendingDelete (s : BlobStore) (id : ReferenceId) :
    s.Continues (s.markPendingDelete id).2 := by
  rcases markPendingDelete_cases s id with he | ⟨before, r, after, hs, he⟩
  · rw [he]
    exact .refl s
  · have hset : (s.markPendingDelete id).2.references =
        s.references.set before.length { r with pendingDelete := true } := by
      simp [he, hs]
    intro i x hx
    rw [hset, List.getElem?_set]
    split
    · subst i
      obtain rfl : r = x := by simpa [hs] using hx
      exact ⟨_, by simp [hs], r.becomes_marked⟩
    · exact ⟨x, hx, .refl x⟩

end BlobStore

end Pipeline
