import Pipeline.Proofs.Blob.Store

/-!
# A store that several clients share

Clients work on a store in turns: what one does in one turn is not seen half done by another. A
call of `BlobStore.ensure` takes two turns, one in which it looks for a live reference and one in
which it creates one, and in between others may do what they like.

* `SharedStore`: a store with the calls of `BlobStore.ensure` that work on it.
* `SharedStore.step`, `SharedStore.run`: what a turn does, and turns one after the other. The turns
  of a call that is not interrupted do what `BlobStore.ensure` does (`SharedStore.run_ensure`).
* `SharedStore.store_of_step`, `SharedStore.call_of_step`: what a turn can do to the store and to a
  call.
* `SharedStore.origin_of_step`, `SharedStore.returned_of_step`: how a call comes to be what it is, and
  how it comes to return a reference.
* `SharedStore.sharing_laws`: what holds whatever the clients do.
-/

namespace Pipeline

/-- Where a call of `BlobStore.ensure` stands. -/
inductive EnsurePhase where
  /-- It is going to look for a live reference. -/
  | looking
  /-- It found none and is going to create one. -/
  | creating
  /-- It is over: this is the reference. -/
  | returned (r : BlobReference)
  /-- It is over: the store did not accept the new reference. -/
  | refused (e : BlobStoreError)
  deriving DecidableEq, Repr, Inhabited

/-- A call of `BlobStore.ensure`. -/
structure EnsureCall where
  pack : PackId
  blob : BlobId
  phase : EnsurePhase
  deriving DecidableEq, Repr, Inhabited

namespace EnsureCall

/-- The first turn of a call: a live reference is returned if there is one. -/
def look (call : EnsureCall) (s : BlobStore) : EnsureCall :=
  match s.findLive? call.pack call.blob with
  | some r => { call with phase := .returned r }
  | none => { call with phase := .creating }

/-- The reference that a call creates. -/
def fresh (call : EnsureCall) (id : ReferenceId) (now : Instant) : BlobReference :=
  ⟨id, call.pack, call.blob, false, now⟩

/-- The second turn of a call: the store is asked to accept a reference of the given id and
time. -/
def create (call : EnsureCall) (s : BlobStore) (id : ReferenceId) (now : Instant) :
    EnsureCall × BlobStore :=
  match s.create (call.fresh id now) with
  | .ok s => ({ call with phase := .returned (call.fresh id now) }, s)
  | .error e => ({ call with phase := .refused e }, s)

variable {call : EnsureCall} {s : BlobStore} {pack : PackId} {blob : BlobId} {r : BlobReference}

theorem returned_of_look (h : call.look s = ⟨pack, blob, .returned r⟩) :
    call.pack = pack ∧ call.blob = blob ∧ s.HoldsLive pack blob r := by
  unfold look at h
  split at h
  · cases h
    exact ⟨rfl, rfl, BlobStore.findLive?_eq_some ‹_›⟩
  · cases h

theorem returned_of_create {id : ReferenceId} {now : Instant}
    (h : (call.create s id now).1 = ⟨pack, blob, .returned r⟩) :
    call.pack = pack ∧ call.blob = blob ∧ (call.create s id now).2.HoldsLive pack blob r := by
  cases hc : s.create (call.fresh id now) with
  | error e => simp [create, hc] at h
  | ok s' =>
    obtain ⟨-, rfl⟩ := BlobStore.of_create_ok hc
    simp only [create, hc] at h ⊢
    cases h
    exact ⟨rfl, rfl, by simp [BlobStore.HoldsLive, fresh]⟩

end EnsureCall

/-- A store and the calls of `BlobStore.ensure`, in the order in which they began. -/
structure SharedStore where
  store : BlobStore
  calls : List EnsureCall
  deriving DecidableEq, Repr, Inhabited

/-- What a client does in one turn. Calls are told by their position. -/
inductive Access where
  | create (r : BlobReference)
  | markPendingDelete (id : ReferenceId)
  | findLive (pack : PackId) (blob : BlobId)
  | findUsable (blob : BlobId)
  /-- A call of `BlobStore.ensure` begins. -/
  | begin (pack : PackId) (blob : BlobId)
  /-- A call looks for a live reference. -/
  | look (call : Nat)
  /-- A call that found none creates a reference of this id and time. -/
  | finish (call : Nat) (id : ReferenceId) (now : Instant)
  deriving DecidableEq, Repr, Inhabited

/-- The call whose turn it is. -/
def Access.call? : Access → Option Nat
  | .look n => some n
  | .finish n _ _ => some n
  | _ => none

namespace SharedStore

/-- Nothing is stored, and no call has begun. -/
def empty : SharedStore := ⟨.empty, []⟩

/-- The call at a position, if it has come to the given phase. -/
def callAt? (c : SharedStore) (n : Nat) (phase : EnsurePhase) : Option EnsureCall :=
  c.calls[n]?.filter fun call => call.phase = phase

/-- What becomes of a shared store in one turn. A call can only do what is next for it. -/
def step (c : SharedStore) : Access → Option SharedStore
  | .create r =>
    match c.store.create r with
    | .ok s => some { c with store := s }
    | .error _ => some c
  | .markPendingDelete id => some { c with store := (c.store.markPendingDelete id).2 }
  | .findLive _ _ => some c
  | .findUsable _ => some c
  | .begin pack blob => some { c with calls := c.calls ++ [⟨pack, blob, .looking⟩] }
  | .look n =>
    (c.callAt? n .looking).map fun call => { c with calls := c.calls.set n (call.look c.store) }
  | .finish n id now =>
    (c.callAt? n .creating).map fun call =>
      ⟨(call.create c.store id now).2, c.calls.set n (call.create c.store id now).1⟩

/-- Turns one after the other. -/
def run (c : SharedStore) : List Access → Option SharedStore
  | [] => some c
  | a :: as => (c.step a).bind fun c' => c'.run as

/-- A call for a pack and a blob has begun and is not over. -/
def UnderWay (c : SharedStore) (n : Nat) (pack : PackId) (blob : BlobId) : Prop :=
  c.calls[n]? = some ⟨pack, blob, .looking⟩ ∨ c.calls[n]? = some ⟨pack, blob, .creating⟩

variable {c c' : SharedStore} {a : Access} {as : List Access} {n : Nat} {pack : PackId}
  {blob : BlobId} {r : BlobReference}

theorem callAt?_eq_some {phase : EnsurePhase} {call : EnsureCall}
    (h : c.callAt? n phase = some call) : c.calls[n]? = some call ∧ call.phase = phase := by
  simpa [callAt?, Option.filter_eq_some_iff] using h

theorem run_append (c : SharedStore) (as bs : List Access) :
    c.run (as ++ bs) = (c.run as).bind fun d => d.run bs := by
  induction as generalizing c with
  | nil => rfl
  | cons a as ih =>
    rw [List.cons_append, run, run]
    cases c.step a with
    | none => rfl
    | some d => exact ih d

/-- What every turn keeps is kept by turns one after the other. -/
theorem run_induction {motive : SharedStore → Prop}
    (step : ∀ {c a c'}, c.step a = some c' → motive c → motive c') (h : c.run as = some c')
    (start : motive c) : motive c' := by
  induction as generalizing c with
  | nil =>
    cases h
    exact start
  | cons a as ih =>
    obtain ⟨d, hd, hr⟩ := Option.bind_eq_some_iff.mp h
    exact ih hr (step hd start)

/-! ## The store -/

/-- A turn leaves the store as it is, or a reference is accepted, or it is a turn that marks one. -/
theorem store_of_step (h : c.step a = some c') :
    c'.store = c.store ∨ (∃ r, c.store.create r = .ok c'.store) ∨
      ∃ id, a = .markPendingDelete id ∧ c'.store = (c.store.markPendingDelete id).2 := by
  cases a with
  | create r =>
    simp only [step] at h
    split at h
    · cases h
      exact .inr (.inl ⟨r, ‹_›⟩)
    · cases h
      exact .inl rfl
  | markPendingDelete id =>
    cases h
    exact .inr (.inr ⟨id, rfl, rfl⟩)
  | findLive pack blob =>
    cases h
    exact .inl rfl
  | findUsable blob =>
    cases h
    exact .inl rfl
  | begin pack blob =>
    cases h
    exact .inl rfl
  | look n =>
    obtain ⟨call, -, rfl⟩ := Option.map_eq_some_iff.mp h
    exact .inl rfl
  | finish n id now =>
    obtain ⟨call, -, rfl⟩ := Option.map_eq_some_iff.mp h
    simp only [EnsureCall.create]
    split
    · exact .inr (.inl ⟨_, ‹_›⟩)
    · exact .inl rfl

theorem unambiguous_of_step (h : c.step a = some c') (hu : c.store.Unambiguous) :
    c'.store.Unambiguous := by
  rcases store_of_step h with he | ⟨r, he⟩ | ⟨id, -, he⟩
  · rwa [he]
  · exact hu.create he
  · rw [he]
    exact hu.markPendingDelete id

theorem continues_of_step (h : c.step a = some c') : c.store.Continues c'.store := by
  rcases store_of_step h with he | ⟨r, he⟩ | ⟨id, -, he⟩
  · rw [he]
    exact .refl _
  · exact BlobStore.continues_of_create he
  · rw [he]
    exact BlobStore.continues_markPendingDelete _ _

theorem continues_of_run (h : c.run as = some c') : c.store.Continues c'.store :=
  run_induction (motive := fun d => c.store.Continues d.store)
    (fun hs hc => hc.trans (continues_of_step hs)) h (.refl _)

/-! ## The calls -/

/-- A turn leaves a call as it is, or it is the turn of the call, which does what is next for it. -/
theorem call_of_step {call : EnsureCall} (h : c.step a = some c') (hn : c.calls[n]? = some call) :
    c'.calls[n]? = some call ∨
    (a = .look n ∧ call.phase = .looking ∧ c'.store = c.store ∧
      c'.calls[n]? = some (call.look c.store)) ∨
    ∃ id now, a = .finish n id now ∧ call.phase = .creating ∧
      c'.store = (call.create c.store id now).2 ∧
      c'.calls[n]? = some (call.create c.store id now).1 := by
  have hlt := (List.getElem?_eq_some_iff.mp hn).1
  cases a with
  | create r =>
    simp only [step] at h
    split at h <;> (cases h; exact .inl hn)
  | markPendingDelete id =>
    cases h
    exact .inl hn
  | findLive pack blob =>
    cases h
    exact .inl hn
  | findUsable blob =>
    cases h
    exact .inl hn
  | begin pack blob =>
    cases h
    exact .inl (by rw [List.getElem?_append_left hlt, hn])
  | look m =>
    obtain ⟨own, hcall, rfl⟩ := Option.map_eq_some_iff.mp h
    obtain ⟨hm, hphase⟩ := callAt?_eq_some hcall
    by_cases he : m = n
    · subst he
      obtain rfl := Option.some.inj (hm.symm.trans hn)
      exact .inr (.inl ⟨rfl, hphase, rfl, List.getElem?_set_self hlt⟩)
    · exact .inl (by rw [List.getElem?_set_ne he, hn])
  | finish m id now =>
    obtain ⟨own, hcall, rfl⟩ := Option.map_eq_some_iff.mp h
    obtain ⟨hm, hphase⟩ := callAt?_eq_some hcall
    by_cases he : m = n
    · subst he
      obtain rfl := Option.some.inj (hm.symm.trans hn)
      exact .inr (.inr ⟨id, now, rfl, hphase, rfl, List.getElem?_set_self hlt⟩)
    · exact .inl (by rw [List.getElem?_set_ne he, hn])

/-- A call that was not there before is going to look. -/
theorem looking_of_step {call : EnsureCall} (h : c.step a = some c') (hn : c.calls[n]? = none)
    (hn' : c'.calls[n]? = some call) : call.phase = .looking := by
  cases a with
  | create r =>
    simp only [step] at h
    split at h <;> (cases h; cases hn.symm.trans hn')
  | markPendingDelete id | findLive pack blob | findUsable blob =>
    cases h
    cases hn.symm.trans hn'
  | begin pack blob =>
    cases h
    rw [List.getElem?_append_right (List.getElem?_eq_none_iff.mp hn), List.getElem?_singleton] at hn'
    split at hn'
    · cases hn'
      rfl
    · cases hn'
  | look m | finish m id now =>
    obtain ⟨own, -, rfl⟩ := Option.map_eq_some_iff.mp h
    rw [List.getElem?_eq_none_iff] at hn
    rw [List.getElem?_eq_none (by simpa using hn)] at hn'
    cases hn'

/-- How a call comes to be what it is after a turn: it was so before, or has just begun, or the turn
was its own. -/
theorem origin_of_step {call : EnsureCall} (h : c.step a = some c') (hn : c'.calls[n]? = some call) :
    c.calls[n]? = some call ∨ call.phase = .looking ∨ ∃ own, c.calls[n]? = some own ∧
      ((a = .look n ∧ own.phase = .looking ∧ c'.store = c.store ∧ own.look c.store = call) ∨
      ∃ id now, a = .finish n id now ∧ own.phase = .creating ∧
        c'.store = (own.create c.store id now).2 ∧ (own.create c.store id now).1 = call) := by
  cases hc : c.calls[n]? with
  | none => exact .inr (.inl (looking_of_step h hc hn))
  | some own =>
    rcases call_of_step h hc with he | ⟨ha, hphase, hs, he⟩ | ⟨id, now, ha, hphase, hs, he⟩
    · exact .inl (he.symm.trans hn)
    · have hlook := Option.some.inj (he.symm.trans hn)
      exact .inr (.inr ⟨own, rfl, .inl ⟨ha, hphase, hs, hlook⟩⟩)
    · have hcreate := Option.some.inj (he.symm.trans hn)
      exact .inr (.inr ⟨own, rfl, .inr ⟨id, now, ha, hphase, hs, hcreate⟩⟩)

/-- A call returns a reference in a turn of its own, after which that reference is stored and live,
and leads from its pack to its blob. -/
theorem returned_of_step (h : c.step a = some c')
    (hn : c'.calls[n]? = some ⟨pack, blob, .returned r⟩) :
    c.calls[n]? = some ⟨pack, blob, .returned r⟩ ∨
      a.call? = some n ∧ c.UnderWay n pack blob ∧ c'.store.HoldsLive pack blob r := by
  rcases origin_of_step h hn with he | hphase | ⟨own, hc, hturn⟩
  · exact .inl he
  · cases hphase
  · rcases hturn with ⟨rfl, hphase, hs, he⟩ | ⟨id, now, rfl, hphase, hs, he⟩
    · obtain ⟨rfl, rfl, hlive⟩ := EnsureCall.returned_of_look he
      exact .inr ⟨rfl, .inl (by rw [hc, ← hphase]), hs ▸ hlive⟩
    · obtain ⟨rfl, rfl, hlive⟩ := EnsureCall.returned_of_create he
      exact .inr ⟨rfl, .inr (by rw [hc, ← hphase]), hs ▸ hlive⟩

/-- A call returns a reference in one of the turns: it is a turn of the call, which was under way
before it, and the reference is live after it. -/
def ReturnsIn (c : SharedStore) (as : List Access) (n : Nat) (pack : PackId) (blob : BlobId)
    (r : BlobReference) : Prop :=
  ∃ before a after c₁ c₂, as = before ++ a :: after ∧ c.run before = some c₁ ∧
    c₁.step a = some c₂ ∧ a.call? = some n ∧ c₁.UnderWay n pack blob ∧
    c₂.calls[n]? = some ⟨pack, blob, .returned r⟩ ∧ c₂.store.HoldsLive pack blob r

theorem ReturnsIn.cons {d : SharedStore} (hs : c.step a = some d) (h : d.ReturnsIn as n pack blob r) :
    c.ReturnsIn (a :: as) n pack blob r := by
  obtain ⟨before, b, after, c₁, c₂, rfl, hrun, hrest⟩ := h
  exact ⟨a :: before, b, after, c₁, c₂, rfl, by rw [run, hs, Option.bind_some, hrun], hrest⟩

/-- A call that has returned a reference had returned it before, or did so in one of the turns. -/
theorem returnsIn_of_run (h : c.run as = some c')
    (hn : c'.calls[n]? = some ⟨pack, blob, .returned r⟩) :
    c.calls[n]? = some ⟨pack, blob, .returned r⟩ ∨ c.ReturnsIn as n pack blob r := by
  induction as generalizing c with
  | nil =>
    cases h
    exact .inl hn
  | cons a as ih =>
    obtain ⟨d, hs, hr⟩ := Option.bind_eq_some_iff.mp h
    rcases ih hr with hd | hd
    · rcases returned_of_step hs hd with hc | ⟨ha, hway, hlive⟩
      · exact .inl hc
      · exact .inr ⟨[], a, as, c, d, rfl, rfl, hs, ha, hway, hd, hlive⟩
    · exact .inr (hd.cons hs)

/-- The turns of a call that nobody interrupts do what `BlobStore.ensure` does. -/
theorem run_ensure (c : SharedStore) (pack : PackId) (blob : BlobId) (id : ReferenceId)
    (now : Instant) :
    ∃ r s as, c.store.ensure pack blob id now = .ok (r, s) ∧
      as <+: [.begin pack blob, .look c.calls.length, .finish c.calls.length id now] ∧
      c.run as = some ⟨s, c.calls ++ [⟨pack, blob, .returned r⟩]⟩ := by
  cases hf : c.store.findLive? pack blob with
  | some r =>
    refine ⟨r, c.store, [.begin pack blob, .look c.calls.length], ?_, ⟨[_], rfl⟩, ?_⟩
    · simp [BlobStore.ensure, hf]
    · simp [run, step, callAt?, EnsureCall.look, hf]
  | none =>
    have hc := BlobStore.create_of_not_hasLive (r := ⟨id, pack, blob, false, now⟩)
      (BlobStore.findLive?_eq_none_iff.mp hf)
    refine ⟨⟨id, pack, blob, false, now⟩, ⟨c.store.references ++ [⟨id, pack, blob, false, now⟩]⟩,
      _, ?_, List.prefix_rfl, ?_⟩
    · simp [BlobStore.ensure, hf, hc]
    · simp [run, step, callAt?, Option.filter_some, EnsureCall.look, EnsureCall.create,
        EnsureCall.fresh, hf, hc]

/-! ## Whatever the clients do -/

/-- After any turns of any clients: no pack has two live references to one blob; a reference is
refused just when its pack has a live one to its blob, and is put at the end otherwise; later turns
leave the stored references as they are, but for marks; what is found is live, and nothing is found
just when there is nothing live to find; a call of `BlobStore.ensure` that nobody interrupts makes
its turns as one; and what a call returned was live while the call was under way. -/
theorem sharing_laws (h : empty.run as = some c) :
    c.store.Unambiguous ∧
    (∀ r, (c.store.HasLive r.packId r.blobId →
        c.store.create r = .error (.alreadyReferenced r.packId r.blobId) ∧
        c.step (.create r) = some c) ∧
      (¬ c.store.HasLive r.packId r.blobId →
        c.store.create r = .ok ⟨c.store.references ++ [r]⟩ ∧
        c.step (.create r) = some { c with store := ⟨c.store.references ++ [r]⟩ })) ∧
    (∀ later c', c.run later = some c' → c.store.Continues c'.store) ∧
    (∀ pack blob, (∀ r, c.store.findLive? pack blob = some r → c.store.HoldsLive pack blob r) ∧
      (c.store.findLive? pack blob = none ↔ ¬ c.store.HasLive pack blob)) ∧
    (∀ blob, (∀ r, c.store.findUsable? blob = some r → c.store.HoldsLive r.packId blob r) ∧
      (c.store.findUsable? blob = none ↔ ∀ pack, ¬ c.store.HasLive pack blob)) ∧
    (∀ pack blob id now, ∃ r s turns, c.store.ensure pack blob id now = .ok (r, s) ∧
      turns <+: [.begin pack blob, .look c.calls.length, .finish c.calls.length id now] ∧
      c.run turns = some ⟨s, c.calls ++ [⟨pack, blob, .returned r⟩]⟩) ∧
    ∀ n pack blob r, c.calls[n]? = some ⟨pack, blob, .returned r⟩ →
      empty.ReturnsIn as n pack blob r := by
  refine ⟨?_, fun r => ⟨fun hl => ?_, fun hl => ?_⟩, fun _ _ => continues_of_run, fun pack blob => ?_,
    fun blob => ?_, run_ensure c, fun n pack blob r hn => ?_⟩
  · exact run_induction (motive := fun c => c.store.Unambiguous) unambiguous_of_step h
      BlobStore.unambiguous_empty
  · have hc := BlobStore.create_of_hasLive hl
    exact ⟨hc, by rw [step, hc]⟩
  · have hc := BlobStore.create_of_not_hasLive hl
    exact ⟨hc, by rw [step, hc]⟩
  · exact ⟨fun r => BlobStore.findLive?_eq_some, BlobStore.findLive?_eq_none_iff⟩
  · exact ⟨fun r => BlobStore.findUsable?_eq_some, BlobStore.findUsable?_eq_none_iff⟩
  · refine (returnsIn_of_run h hn).resolve_left fun he => ?_
    simp [empty] at he

/-- A reference from the first pack to the first blob. -/
def reference (id : ReferenceId) (pendingDelete : Bool) : BlobReference :=
  ⟨id, ⟨⟨1⟩⟩, ⟨⟨1⟩⟩, pendingDelete, ⟨0, 0⟩⟩

/-- Two calls look before either creates, so one of them is refused. A third one finds what the
other created, which is then marked. A reference that is marked from the start, and one that has
the id of the first one, are accepted. -/
def race : List Access :=
  [.begin ⟨⟨1⟩⟩ ⟨⟨1⟩⟩, .begin ⟨⟨1⟩⟩ ⟨⟨1⟩⟩, .look 0, .look 1, .finish 1 ⟨⟨7⟩⟩ ⟨0, 0⟩,
    .finish 0 ⟨⟨8⟩⟩ ⟨0, 0⟩, .begin ⟨⟨1⟩⟩ ⟨⟨1⟩⟩, .look 2, .markPendingDelete ⟨⟨7⟩⟩,
    .create (reference ⟨⟨9⟩⟩ true), .create (reference ⟨⟨7⟩⟩ false), .findUsable ⟨⟨1⟩⟩]

/-- What the store and the calls are in the end. -/
def afterRace : SharedStore :=
  ⟨⟨[reference ⟨⟨7⟩⟩ true, reference ⟨⟨9⟩⟩ true, reference ⟨⟨7⟩⟩ false]⟩,
    [⟨⟨⟨1⟩⟩, ⟨⟨1⟩⟩, .refused (.alreadyReferenced ⟨⟨1⟩⟩ ⟨⟨1⟩⟩)⟩,
      ⟨⟨⟨1⟩⟩, ⟨⟨1⟩⟩, .returned (reference ⟨⟨7⟩⟩ false)⟩,
      ⟨⟨⟨1⟩⟩, ⟨⟨1⟩⟩, .returned (reference ⟨⟨7⟩⟩ false)⟩]⟩

theorem sharing_laws_race :
    empty.run race = some afterRace ∧ afterRace.store.Unambiguous ∧
    afterRace.store.create (reference ⟨⟨5⟩⟩ false) =
      .error (.alreadyReferenced ⟨⟨1⟩⟩ ⟨⟨1⟩⟩) ∧
    (∀ later c', afterRace.run later = some c' → afterRace.store.Continues c'.store) ∧
    empty.ReturnsIn race 1 ⟨⟨1⟩⟩ ⟨⟨1⟩⟩ (reference ⟨⟨7⟩⟩ false) ∧
    empty.ReturnsIn race 2 ⟨⟨1⟩⟩ ⟨⟨1⟩⟩ (reference ⟨⟨7⟩⟩ false) := by
  have h : empty.run race = some afterRace := by decide
  have hlive : afterRace.store.HasLive ⟨⟨1⟩⟩ ⟨⟨1⟩⟩ :=
    ⟨reference ⟨⟨7⟩⟩ false, by simp [BlobStore.HoldsLive, afterRace, reference]⟩
  obtain ⟨hu, hcreate, hlater, -, -, -, hreturn⟩ := sharing_laws h
  exact ⟨h, hu, ((hcreate _).1 hlive).1, hlater, hreturn 1 _ _ _ rfl, hreturn 2 _ _ _ rfl⟩

end SharedStore

end Pipeline
