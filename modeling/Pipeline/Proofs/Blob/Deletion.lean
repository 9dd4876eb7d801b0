import Mathlib.Data.List.Nodup
import Pipeline.Proofs.Blob.Agreement

/-!
# What a mark reaches

A reference is marked for deletion by its id. The store asks for no new id when it accepts a
reference, and a mark takes the first reference of an id, whether it is marked already or not. So a
live reference that has the id of an earlier one is out of reach, however often the id is marked.

* `BlobStore.markPendingDelete_fst_eq_false_iff`: what is told of a mark.
* `BlobStore.Unambiguous.hasLiveId_markPendingDelete_iff`: which references stay live.
* `SharedStore.ids_sublist_of_run`: the stored ids are among those that clients have given.
* `SharedStore.mark_effect`: after a mark no live reference has the id, if none was out of reach,
  as when no id is given twice.
-/

namespace Pipeline

namespace BlobStore

variable {s s' : BlobStore} {r : BlobReference} {id : ReferenceId}

/-- A live reference with an id is stored. -/
def HasLiveId (s : BlobStore) (id : ReferenceId) : Prop :=
  ∃ r ∈ s.references, r.id = id ∧ r.pendingDelete = false

/-- The ids of the references, in order. -/
def ids (s : BlobStore) : List ReferenceId := s.references.map BlobReference.id

/-- The reference that a mark takes. -/
def firstWithId? (s : BlobStore) (id : ReferenceId) : Option BlobReference :=
  s.references.find? fun r => r.id = id

/-! ## Marking -/

theorem markPendingDelete_fst_eq_false_iff :
    (s.markPendingDelete id).1 = false ↔ ∀ r ∈ s.references, r.id ≠ id := by
  refine ⟨fun h r hr hid => ?_, fun h => by rw [markPendingDelete_of_unknown h]⟩
  obtain ⟨before, x, after, -, -, -, -, hm⟩ := markPendingDelete_of_known ⟨r, hr, hid⟩
  rw [hm] at h
  cases h

@[simp] theorem ids_markPendingDelete (s : BlobStore) (id : ReferenceId) :
    (s.markPendingDelete id).2.ids = s.ids := by
  rcases markPendingDelete_cases s id with he | ⟨before, r, after, hs, he⟩
  · rw [he]
  · simp [ids, he, hs]

theorem ids_of_create (h : s.create r = .ok s') : s'.ids = s.ids ++ [r.id] := by
  obtain ⟨-, rfl⟩ := of_create_ok h
  exact List.map_append

/-! ## What stays live -/

/-- A live reference of a store that is not ambiguous is stored once. -/
theorem Unambiguous.not_mem_after (hu : s.Unambiguous) {before after : List BlobReference}
    (hs : s.references = before ++ r :: after) (hl : r.pendingDelete = false) : r ∉ after := by
  intro hr
  have hcount := hu r.packId r.blobId
  have hp : (r.connects r.packId r.blobId && r.isLive) = true := by simp [hl]
  have hpos : 0 < after.countP fun x => x.connects r.packId r.blobId && x.isLive :=
    List.countP_pos_iff.mpr ⟨r, hr, hp⟩
  rw [liveCount, hs, List.countP_append, List.countP_cons, if_pos hp] at hcount
  omega

/-- After a mark, the live references with the id are those that had it before, but for the first
one with the id. -/
theorem Unambiguous.hasLiveId_markPendingDelete_iff (hu : s.Unambiguous) :
    (s.markPendingDelete id).2.HasLiveId id ↔
      ∃ r ∈ s.references, r.id = id ∧ r.pendingDelete = false ∧ s.firstWithId? id ≠ some r := by
  constructor
  · rintro ⟨r, hr, hid, hl⟩
    by_cases hk : ∃ r ∈ s.references, r.id = id
    · obtain ⟨before, first, after, hs, -, hb, hf, hm⟩ := markPendingDelete_of_known hk
      rw [hm] at hr
      rcases List.mem_append.mp hr with hr | hr
      · exact absurd hid (hb r hr)
      · rcases List.mem_cons.mp hr with rfl | hr
        · cases hl
        · refine ⟨r, hs ▸ List.mem_append_right _ (List.mem_cons_of_mem _ hr), hid, hl, ?_⟩
          rintro he
          obtain rfl : first = r := Option.some.inj (hf.symm.trans he)
          exact hu.not_mem_after hs hl hr
    · have hunknown : ∀ r ∈ s.references, r.id ≠ id := fun x hx he => hk ⟨x, hx, he⟩
      rw [markPendingDelete_of_unknown hunknown] at hr
      exact absurd hid (hunknown r hr)
  · rintro ⟨r, hr, hid, hl, hf⟩
    have hlive : s.HoldsLive r.packId r.blobId r := ⟨hr, rfl, rfl, hl⟩
    exact ⟨r, (hlive.markPendingDelete hf).1, hid, hl⟩

/-- No reference is out of reach where no two have one id. -/
theorem firstWithId?_of_nodup (h : s.ids.Nodup) (hr : r ∈ s.references) :
    s.firstWithId? r.id = some r := by
  obtain ⟨before, first, after, hs, hid, -, hf, -⟩ :=
    markPendingDelete_of_known (s := s) ⟨r, hr, rfl⟩
  have hmem : first ∈ s.references := hs ▸ List.mem_append_right _ List.mem_cons_self
  rw [firstWithId?, hf, List.inj_on_of_nodup_map h hmem hr hid]

/-! ## What is found -/

/-- In a store that is not ambiguous, every live reference can be found. -/
theorem Unambiguous.hasLiveId_iff (hu : s.Unambiguous) :
    s.HasLiveId id ↔ ∃ pack blob r, s.findLive? pack blob = some r ∧ r.id = id := by
  constructor
  · rintro ⟨r, hr, hid, hl⟩
    exact ⟨r.packId, r.blobId, r, hu.findLive?_eq_some_iff.mpr ⟨hr, rfl, rfl, hl⟩, hid⟩
  · rintro ⟨pack, blob, r, hf, hid⟩
    obtain ⟨hr, -, -, hl⟩ := findLive?_eq_some hf
    exact ⟨r, hr, hid, hl⟩

theorem hasLiveId_of_findUsable? {blob : BlobId} (h : s.findUsable? blob = some r) :
    s.HasLiveId r.id := by
  obtain ⟨hr, -, -, hl⟩ := findUsable?_eq_some h
  exact ⟨r, hr, rfl, hl⟩

end BlobStore

/-- The id of the reference that the store is asked to accept in a turn. -/
def Access.newId? : Access → Option ReferenceId
  | .create r => some r.id
  | .finish _ id _ => some id
  | _ => none

namespace SharedStore

variable {c c' : SharedStore} {a : Access} {as : List Access}

/-! ## Ids -/

theorem ids_sublist_of_step (h : c.step a = some c') :
    c'.store.ids.Sublist (c.store.ids ++ a.newId?.toList) := by
  cases a with
  | create r =>
    simp only [step] at h
    split at h
    · cases h
      rw [BlobStore.ids_of_create ‹_›]
      exact .refl _
    · cases h
      exact List.sublist_append_left _ _
  | markPendingDelete id =>
    cases h
    simp [Access.newId?]
  | findLive pack blob | findUsable blob | begin pack blob =>
    cases h
    simp [Access.newId?]
  | look n =>
    obtain ⟨call, -, rfl⟩ := Option.map_eq_some_iff.mp h
    simp [Access.newId?]
  | finish n id now =>
    obtain ⟨call, -, rfl⟩ := Option.map_eq_some_iff.mp h
    simp only [EnsureCall.create]
    split
    · rw [BlobStore.ids_of_create ‹_›]
      exact .refl _
    · exact List.sublist_append_left _ _

/-- The stored ids are among those given in the turns, in the same order. -/
theorem ids_sublist_of_run (h : c.run as = some c') :
    c'.store.ids.Sublist (c.store.ids ++ as.filterMap Access.newId?) := by
  induction as generalizing c with
  | nil =>
    cases h
    simp
  | cons a as ih =>
    obtain ⟨d, hs, hr⟩ := Option.bind_eq_some_iff.mp h
    have hd := ids_sublist_of_step hs
    have hrest : (a :: as).filterMap Access.newId? =
        a.newId?.toList ++ as.filterMap Access.newId? := by
      cases ha : a.newId? <;> simp [ha]
    rw [hrest, ← List.append_assoc]
    exact (ih hr).trans (hd.append_right _)

/-! ## Marks of clients -/

/-- Whatever clients did before, a mark tells whether the id is stored, and does nothing if it is not.
The live references that have the id after it are those that had it before and were not the first one
with it; just these can still be found, so the mark takes effect if there are none. There are none if
no two references came with one id. -/
theorem mark_effect (h : empty.run as = some c) (id : ReferenceId) :
    ((c.store.markPendingDelete id).1 = false ↔ ∀ r ∈ c.store.references, r.id ≠ id) ∧
    ((c.store.markPendingDelete id).1 = false → (c.store.markPendingDelete id).2 = c.store) ∧
    ((c.store.markPendingDelete id).2.HasLiveId id ↔ ∃ r ∈ c.store.references,
      r.id = id ∧ r.pendingDelete = false ∧ c.store.firstWithId? id ≠ some r) ∧
    ((c.store.markPendingDelete id).2.HasLiveId id ↔ ∃ pack blob r,
      (c.store.markPendingDelete id).2.findLive? pack blob = some r ∧ r.id = id) ∧
    (∀ blob r, (c.store.markPendingDelete id).2.findUsable? blob = some r → r.id = id →
      (c.store.markPendingDelete id).2.HasLiveId id) ∧
    ((as.filterMap Access.newId?).Nodup → ¬ (c.store.markPendingDelete id).2.HasLiveId id) := by
  have hu : c.store.Unambiguous :=
    run_induction (motive := fun c => c.store.Unambiguous) unambiguous_of_step h
      BlobStore.unambiguous_empty
  refine ⟨BlobStore.markPendingDelete_fst_eq_false_iff, fun hm => ?_,
    hu.hasLiveId_markPendingDelete_iff, (hu.markPendingDelete id).hasLiveId_iff, ?_, fun hids => ?_⟩
  · have hunknown := BlobStore.markPendingDelete_fst_eq_false_iff.mp hm
    rw [BlobStore.markPendingDelete_of_unknown hunknown]
  · rintro blob r hf rfl
    exact BlobStore.hasLiveId_of_findUsable? hf
  · have hstored : c.store.ids.Nodup := hids.sublist (ids_sublist_of_run h)
    rw [hu.hasLiveId_markPendingDelete_iff]
    rintro ⟨r, hr, rfl, -, hf⟩
    exact hf (BlobStore.firstWithId?_of_nodup hstored hr)

/-- Two packs have a reference to the first blob. That of the first pack is marked, and the pack gets
another one under another id. -/
def replacing : List Access :=
  [.create (bystander false), .begin ⟨⟨1⟩⟩ ⟨⟨1⟩⟩, .look 0, .finish 0 ⟨⟨7⟩⟩ ⟨0, 0⟩,
    .markPendingDelete ⟨⟨7⟩⟩, .create (reference ⟨⟨8⟩⟩ false)]

/-- What the store and the calls are in the end. -/
def afterReplacing : SharedStore :=
  ⟨⟨[bystander false, reference ⟨⟨7⟩⟩ true, reference ⟨⟨8⟩⟩ false]⟩,
    [⟨⟨⟨1⟩⟩, ⟨⟨1⟩⟩, .returned (reference ⟨⟨7⟩⟩ false)⟩]⟩

theorem mark_effect_replacing :
    empty.run replacing = some afterReplacing ∧ (replacing.filterMap Access.newId?).Nodup ∧
    afterReplacing.store.markPendingDelete ⟨⟨8⟩⟩ =
      (true, ⟨[bystander false, reference ⟨⟨7⟩⟩ true, reference ⟨⟨8⟩⟩ true]⟩) ∧
    ¬ (afterReplacing.store.markPendingDelete ⟨⟨8⟩⟩).2.HasLiveId ⟨⟨8⟩⟩ ∧
    (∀ r ∈ afterReplacing.store.references, r.id ≠ ⟨⟨9⟩⟩) ∧
    (afterReplacing.store.markPendingDelete ⟨⟨9⟩⟩).2 = afterReplacing.store := by
  have h : empty.run replacing = some afterReplacing := by decide
  have hids : (replacing.filterMap Access.newId?).Nodup := by decide
  obtain ⟨-, -, -, -, -, heffect⟩ := mark_effect h ⟨⟨8⟩⟩
  obtain ⟨hunknown, hsame, -⟩ := mark_effect h ⟨⟨9⟩⟩
  exact ⟨h, hids, by decide, heffect hids, hunknown.mp (by decide), hsame (by decide)⟩

/-- A reference is marked, and is then created once more under its id. -/
def restoring : List Access :=
  [.create (reference ⟨⟨7⟩⟩ false), .markPendingDelete ⟨⟨7⟩⟩, .create (reference ⟨⟨7⟩⟩ false)]

/-- What is stored in the end. -/
def afterRestoring : SharedStore :=
  ⟨⟨[reference ⟨⟨7⟩⟩ true, reference ⟨⟨7⟩⟩ false]⟩, []⟩

/-- A mark that is said to have found its reference changes nothing: it takes the one that was marked
before, and the live one with the same id is still found. -/
theorem not_mark_effect_restoring :
    empty.run restoring = some afterRestoring ∧
    afterRestoring.store.markPendingDelete ⟨⟨7⟩⟩ = (true, afterRestoring.store) ∧
    afterRestoring.store.findLive? ⟨⟨1⟩⟩ ⟨⟨1⟩⟩ = some (reference ⟨⟨7⟩⟩ false) ∧
    afterRestoring.store.findUsable? ⟨⟨1⟩⟩ = some (reference ⟨⟨7⟩⟩ false) ∧
    ¬ ∀ id, (afterRestoring.store.markPendingDelete id).1 = true →
      ¬ (afterRestoring.store.markPendingDelete id).2.HasLiveId id := by
  have hmark : afterRestoring.store.markPendingDelete ⟨⟨7⟩⟩ = (true, afterRestoring.store) := by decide
  refine ⟨by decide, hmark, by decide, by decide, fun h => ?_⟩
  have hgone := h ⟨⟨7⟩⟩ (by rw [hmark])
  rw [hmark] at hgone
  exact hgone ⟨reference ⟨⟨7⟩⟩ false, .tail _ (.head _), rfl, rfl⟩

end SharedStore

end Pipeline
