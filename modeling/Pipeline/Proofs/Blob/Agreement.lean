import Pipeline.Proofs.Blob.Sharing

/-!
# Calls for one pack and one blob agree, unless one is outrun

Several calls of `BlobStore.ensure` for one pack and one blob work on a store, and nobody marks the
reference that they are about. Those that return a reference return the same one. But a call that
found nothing may be outrun by another one that creates the reference in between; then the store
refuses what it creates, and the call fails though there is a reference that it could return.

* `BlobStore.Unambiguous.findLive?_eq_some_iff`: there is at most one reference to be returned.
* `SharedStore.holdsLive_of_run`: it stays, if nobody marks it.
* `SharedStore.Outrun`: a call is going to create a reference, and there is one.
* `SharedStore.calls_agree`: the calls that are over have returned the one reference, all but those
  that were outrun.
-/

namespace Pipeline

namespace BlobStore

variable {s s' : BlobStore} {r r' : BlobReference} {pack : PackId} {blob : BlobId}

instance : Decidable (s.HoldsLive pack blob r) :=
  inferInstanceAs (Decidable (_ ∧ _))

/-- Of two live references of a pack to a blob, one is the other. -/
theorem Unambiguous.eq_of_holdsLive (h : s.Unambiguous) (hr : s.HoldsLive pack blob r)
    (hr' : s.HoldsLive pack blob r') : r = r' := by
  have hcount := h pack blob
  rw [liveCount, List.countP_eq_length_filter] at hcount
  have hmem : ∀ {r}, s.HoldsLive pack blob r →
      r ∈ s.references.filter fun r => r.connects pack blob && r.isLive := by
    rintro r ⟨hr, hp, hb, hl⟩
    simp [hr, hp, hb, hl]
  have hm := hmem hr
  have hm' := hmem hr'
  generalize (s.references.filter fun r => r.connects pack blob && r.isLive) = live at hcount hm hm'
  cases live with
  | nil => cases hm
  | cons x rest =>
    cases rest with
    | nil => rw [List.mem_singleton.mp hm, List.mem_singleton.mp hm']
    | cons y rest => simp at hcount

/-- What is found is the live reference of the pack to the blob. -/
theorem Unambiguous.findLive?_eq_some_iff (h : s.Unambiguous) :
    s.findLive? pack blob = some r ↔ s.HoldsLive pack blob r := by
  constructor
  · exact findLive?_eq_some
  · intro hr
    cases hf : s.findLive? pack blob with
    | none => exact absurd ⟨r, hr⟩ (findLive?_eq_none_iff.mp hf)
    | some r' => rw [h.eq_of_holdsLive (findLive?_eq_some hf) hr]

theorem HoldsLive.create (h : s.HoldsLive pack blob r) (hc : s.create r' = .ok s') :
    s'.HoldsLive pack blob r := by
  obtain ⟨-, rfl⟩ := of_create_ok hc
  exact ⟨List.mem_append_left _ h.1, h.2⟩

/-- A live reference stays unless it is the first one of the id that is marked. -/
theorem HoldsLive.markPendingDelete {id : ReferenceId} (h : s.HoldsLive pack blob r)
    (hm : s.references.find? (fun x => x.id = id) ≠ some r) :
    (s.markPendingDelete id).2.HoldsLive pack blob r := by
  refine ⟨?_, h.2⟩
  by_cases hk : ∃ x ∈ s.references, x.id = id
  · obtain ⟨before, x, after, hs, -, -, hfirst, hmark⟩ := markPendingDelete_of_known hk
    have hne : r ≠ x := fun he => hm (he ▸ hfirst)
    have hr := hs ▸ h.1
    rw [hmark]
    simp only [List.mem_append, List.mem_cons] at hr ⊢
    rcases hr with hr | hr | hr
    · exact .inl hr
    · exact absurd hr hne
    · exact .inr (.inr hr)
  · rw [markPendingDelete_of_unknown fun x hx hid => hk ⟨x, hx, hid⟩]
    exact h.1

end BlobStore

namespace EnsureCall

variable {call : EnsureCall} {s : BlobStore} {pack : PackId} {blob : BlobId} {id : ReferenceId}
  {now : Instant} {e : BlobStoreError}

theorem create_of_hasLive (h : s.HasLive call.pack call.blob) :
    call.create s id now =
      ({ call with phase := .refused (.alreadyReferenced call.pack call.blob) }, s) := by
  rw [create, BlobStore.create_of_hasLive (r := call.fresh id now) h]
  rfl

theorem look_ne_refused : call.look s ≠ ⟨pack, blob, .refused e⟩ := by
  unfold look
  split <;> simp

/-- A call is going to create a reference because it found none. -/
theorem not_hasLive_of_look (h : call.look s = ⟨pack, blob, .creating⟩) : ¬ s.HasLive pack blob := by
  unfold look at h
  split at h
  · cases h
  · cases h
    exact BlobStore.findLive?_eq_none_iff.mp ‹_›

theorem create_ne_creating : (call.create s id now).1 ≠ ⟨pack, blob, .creating⟩ := by
  unfold create
  split <;> simp

/-- A call is refused because there is a reference. -/
theorem refused_of_create (h : (call.create s id now).1 = ⟨pack, blob, .refused e⟩) :
    call.pack = pack ∧ call.blob = blob ∧ e = .alreadyReferenced pack blob ∧ s.HasLive pack blob := by
  by_cases hl : s.HasLive call.pack call.blob
  · rw [create_of_hasLive hl] at h
    cases h
    exact ⟨rfl, rfl, rfl, hl⟩
  · have hc := BlobStore.create_of_not_hasLive (r := call.fresh id now) hl
    rw [create, hc] at h
    cases h

end EnsureCall

namespace SharedStore

variable {c c' d : SharedStore} {a : Access} {as bs : List Access} {n : Nat} {pack : PackId}
  {blob : BlobId} {r : BlobReference}

/-! ## What is not marked stays -/

/-- A turn marks a live reference of a pack to a blob: it is the first one of an id. -/
def Marks (c : SharedStore) (a : Access) (pack : PackId) (blob : BlobId) : Prop :=
  match a with
  | .markPendingDelete id =>
    ∃ r ∈ c.store.references.find? (fun x => x.id = id), c.store.HoldsLive pack blob r
  | _ => False

/-- None of the turns marks a live reference of a pack to a blob. -/
def Spares (c : SharedStore) (as : List Access) (pack : PackId) (blob : BlobId) : Prop :=
  match as with
  | [] => True
  | a :: as => ¬ c.Marks a pack blob ∧ ∀ d ∈ c.step a, d.Spares as pack blob

instance (c : SharedStore) (a : Access) (pack : PackId) (blob : BlobId) :
    Decidable (c.Marks a pack blob) :=
  match a with
  | .markPendingDelete id => inferInstanceAs (Decidable (∃ r ∈
      c.store.references.find? (fun x => x.id = id), c.store.HoldsLive pack blob r))
  | .create _ | .findLive _ _ | .findUsable _ | .begin _ _ | .look _ | .finish _ _ _ => .isFalse id

instance decidableSpares (c : SharedStore) (as : List Access) (pack : PackId) (blob : BlobId) :
    Decidable (c.Spares as pack blob) :=
  match as with
  | [] => .isTrue trivial
  | a :: as =>
    have : DecidablePred fun d : SharedStore => d.Spares as pack blob :=
      fun d => decidableSpares d as pack blob
    inferInstanceAs (Decidable (_ ∧ ∀ d ∈ c.step a, d.Spares as pack blob))

theorem holdsLive_of_step (h : c.step a = some c') (hm : ¬ c.Marks a pack blob)
    (hr : c.store.HoldsLive pack blob r) : c'.store.HoldsLive pack blob r := by
  rcases store_of_step h with he | ⟨r', he⟩ | ⟨id, rfl, he⟩
  · rwa [he]
  · exact hr.create he
  · rw [he]
    exact hr.markPendingDelete fun hf => hm ⟨r, hf, hr⟩

/-- What every turn that spares a reference keeps is kept by such turns one after the other. -/
theorem spares_induction {motive : SharedStore → Prop}
    (step : ∀ {c a c'}, c.step a = some c' → ¬ c.Marks a pack blob → motive c → motive c')
    (h : c.run as = some c') (hs : c.Spares as pack blob) (start : motive c) : motive c' := by
  induction as generalizing c with
  | nil =>
    cases h
    exact start
  | cons a as ih =>
    obtain ⟨d, hd, hr⟩ := Option.bind_eq_some_iff.mp h
    exact ih hr (hs.2 d hd) (step hd hs.1 start)

theorem holdsLive_of_run (h : c.run as = some c') (hs : c.Spares as pack blob)
    (hr : c.store.HoldsLive pack blob r) : c'.store.HoldsLive pack blob r :=
  spares_induction (motive := fun c => c.store.HoldsLive pack blob r) holdsLive_of_step h hs hr

theorem Spares.of_append (hs : c.Spares (as ++ bs) pack blob) :
    c.Spares as pack blob ∧ ∀ d, c.run as = some d → d.Spares bs pack blob := by
  induction as generalizing c with
  | nil =>
    refine ⟨trivial, fun d hd => ?_⟩
    cases hd
    exact hs
  | cons a as ih =>
    refine ⟨⟨hs.1, fun d hd => (ih (hs.2 d hd)).1⟩, fun d hd => ?_⟩
    obtain ⟨c₁, hstep, hrun⟩ := Option.bind_eq_some_iff.mp hd
    exact (ih (hs.2 c₁ hstep)).2 d hrun

/-! ## Calls that return -/

/-- A call that began and returned in turns that mark nothing returned what is live in the end. -/
theorem holdsLive_of_returned (h : c.run as = some c') (hs : c.Spares as pack blob)
    (hn : c.calls.length ≤ n) (hr : c'.calls[n]? = some ⟨pack, blob, .returned r⟩) :
    c'.store.HoldsLive pack blob r := by
  have hnone : c.calls[n]? = none := List.getElem?_eq_none hn
  rcases returnsIn_of_run h hr with he | ⟨before, a, after, c₁, c₂, rfl, hrun, hstep, -, -, -, hlive⟩
  · cases hnone.symm.trans he
  · rw [run_append, hrun, Option.bind_some, run, hstep, Option.bind_some] at h
    have hrest := (hs.of_append.2 c₁ hrun).2 c₂ hstep
    exact holdsLive_of_run h hrest hlive

/-! ## Calls that are refused -/

/-- At some moment of the turns, a call is going to create a reference though there is one. -/
def Outrun (c : SharedStore) (as : List Access) (n : Nat) (pack : PackId) (blob : BlobId) : Prop :=
  ∃ before after d, as = before ++ after ∧ c.run before = some d ∧
    d.calls[n]? = some ⟨pack, blob, .creating⟩ ∧ d.store.HasLive pack blob

theorem Outrun.cons (hs : c.step a = some d) (h : d.Outrun as n pack blob) :
    c.Outrun (a :: as) n pack blob := by
  obtain ⟨before, after, e, rfl, hrun, hrest⟩ := h
  exact ⟨a :: before, after, e, rfl, by rw [run, hs, Option.bind_some, hrun], hrest⟩

/-- A call is refused in a turn of its own, in which it was going to create a reference though there
was one. -/
theorem refused_of_step {e : BlobStoreError} (h : c.step a = some c')
    (hn : c'.calls[n]? = some ⟨pack, blob, .refused e⟩) :
    c.calls[n]? = some ⟨pack, blob, .refused e⟩ ∨
      e = .alreadyReferenced pack blob ∧ c.calls[n]? = some ⟨pack, blob, .creating⟩ ∧
        c.store.HasLive pack blob := by
  rcases origin_of_step h hn with he | hphase | ⟨own, hc, hturn⟩
  · exact .inl he
  · cases hphase
  · rcases hturn with ⟨-, -, -, he⟩ | ⟨id, now, -, hphase, -, he⟩
    · exact absurd he EnsureCall.look_ne_refused
    · obtain ⟨rfl, rfl, rfl, hlive⟩ := EnsureCall.refused_of_create he
      exact .inr ⟨rfl, by rw [hc, ← hphase], hlive⟩

theorem refused_of_run {e : BlobStoreError} (h : c.run as = some c')
    (hn : c'.calls[n]? = some ⟨pack, blob, .refused e⟩) :
    c.calls[n]? = some ⟨pack, blob, .refused e⟩ ∨
      e = .alreadyReferenced pack blob ∧ c.Outrun as n pack blob := by
  induction as generalizing c with
  | nil =>
    cases h
    exact .inl hn
  | cons a as ih =>
    obtain ⟨d, hs, hr⟩ := Option.bind_eq_some_iff.mp h
    rcases ih hr with hd | ⟨he, hd⟩
    · rcases refused_of_step hs hd with hc | ⟨he, hc, hlive⟩
      · exact .inl hc
      · exact .inr ⟨he, [], a :: as, c, rfl, rfl, hc, hlive⟩
    · exact .inr ⟨he, hd.cons hs⟩

/-- A call that was outrun does not get any further, but for being refused. -/
theorem stuck_of_step (h : c.step a = some c') (hl : c.store.HasLive pack blob)
    (hn : c.calls[n]? = some ⟨pack, blob, .creating⟩ ∨
      c.calls[n]? = some ⟨pack, blob, .refused (.alreadyReferenced pack blob)⟩) :
    c'.calls[n]? = some ⟨pack, blob, .creating⟩ ∨
      c'.calls[n]? = some ⟨pack, blob, .refused (.alreadyReferenced pack blob)⟩ := by
  rcases hn with hn | hn
  · rcases call_of_step h hn with he | ⟨-, hphase, -⟩ | ⟨id, now, -, -, -, he⟩
    · exact .inl he
    · cases hphase
    · rw [EnsureCall.create_of_hasLive hl] at he
      exact .inr he
  · rcases call_of_step h hn with he | ⟨-, hphase, -⟩ | ⟨id, now, -, hphase, -⟩
    · exact .inr he
    · cases hphase
    · cases hphase

theorem stuck_of_outrun (h : c.run as = some c') (hs : c.Spares as pack blob)
    (ho : c.Outrun as n pack blob) :
    c'.store.HasLive pack blob ∧ (c'.calls[n]? = some ⟨pack, blob, .creating⟩ ∨
      c'.calls[n]? = some ⟨pack, blob, .refused (.alreadyReferenced pack blob)⟩) := by
  obtain ⟨before, after, d, rfl, hrun, hcreating, hlive⟩ := ho
  rw [run_append, hrun, Option.bind_some] at h
  refine spares_induction (motive := fun d => d.store.HasLive pack blob ∧
    (d.calls[n]? = some ⟨pack, blob, .creating⟩ ∨
      d.calls[n]? = some ⟨pack, blob, .refused (.alreadyReferenced pack blob)⟩)) ?_ h
    (hs.of_append.2 d hrun) ⟨hlive, .inl hcreating⟩
  rintro c a c' hstep hm ⟨⟨r, hr⟩, hn⟩
  exact ⟨⟨r, holdsLive_of_step hstep hm hr⟩, stuck_of_step hstep ⟨r, hr⟩ hn⟩

theorem not_creating_of_step (h : c.step a = some c') (hl : c.store.HasLive pack blob)
    (hn : c.calls[n]? ≠ some ⟨pack, blob, .creating⟩) :
    c'.calls[n]? ≠ some ⟨pack, blob, .creating⟩ := by
  intro hn'
  rcases origin_of_step h hn' with he | hphase | ⟨own, -, hturn⟩
  · exact hn he
  · cases hphase
  · rcases hturn with ⟨-, -, -, he⟩ | ⟨id, now, -, -, -, he⟩
    · exact EnsureCall.not_hasLive_of_look he hl
    · exact EnsureCall.create_ne_creating he

/-- Where there is a reference from the start, no call is outrun: each finds it. -/
theorem not_outrun_of_hasLive (hs : c.Spares as pack blob) (hl : c.store.HasLive pack blob)
    (hn : c.calls.length ≤ n) : ¬ c.Outrun as n pack blob := by
  rintro ⟨before, after, d, rfl, hrun, hcreating, -⟩
  have hstart : c.calls[n]? ≠ some ⟨pack, blob, .creating⟩ := by
    rw [List.getElem?_eq_none hn]
    exact nofun
  obtain ⟨-, hnever⟩ := spares_induction
    (motive := fun d => d.store.HasLive pack blob ∧ d.calls[n]? ≠ some ⟨pack, blob, .creating⟩)
    (fun hstep hm hmotive => by
      obtain ⟨⟨r, hr⟩, hne⟩ := hmotive
      exact ⟨⟨r, holdsLive_of_step hstep hm hr⟩, not_creating_of_step hstep ⟨r, hr⟩ hne⟩)
    hrun hs.of_append.1 ⟨hl, hstart⟩
  exact hnever hcreating

/-! ## Agreement -/

/-- No call is under way if none is going to do anything. -/
theorem not_underWay_of_forall
    (h : ∀ call ∈ c.calls, call.phase ≠ .looking ∧ call.phase ≠ .creating) (n : Nat) :
    ¬ c.UnderWay n pack blob := by
  rintro (hn | hn)
  · exact (h _ (List.mem_of_getElem? hn)).1 rfl
  · exact (h _ (List.mem_of_getElem? hn)).2 rfl

/-- Calls for a pack and a blob begin and come to their end, with any turns of other clients in
between, of which none marks the reference. Those that return a reference return the same one, and it
is live in the end. The others were outrun, and are refused because there is that reference; none is
outrun if it is there from the start. So the calls agree just if none is outrun. -/
theorem calls_agree {past : List Access} (h : empty.run past = some c) (hrun : c.run as = some c')
    (hs : c.Spares as pack blob) (hover : ∀ n, c.calls.length ≤ n → ¬ c'.UnderWay n pack blob) :
    (∀ n r, c.calls.length ≤ n → c'.calls[n]? = some ⟨pack, blob, .returned r⟩ →
      c'.store.findLive? pack blob = some r) ∧
    (∀ n, c.calls.length ≤ n → ((∃ e, c'.calls[n]? = some ⟨pack, blob, .refused e⟩) ↔
      c.Outrun as n pack blob)) ∧
    (∀ n e, c.calls.length ≤ n → c'.calls[n]? = some ⟨pack, blob, .refused e⟩ →
      e = .alreadyReferenced pack blob ∧ c'.store.HasLive pack blob) ∧
    (c.store.HasLive pack blob → ∀ n, c.calls.length ≤ n → ¬ c.Outrun as n pack blob) ∧
    ((∃ r, ∀ n phase, c.calls.length ≤ n → c'.calls[n]? = some ⟨pack, blob, phase⟩ →
        phase = .returned r) ↔
      ∀ n, c.calls.length ≤ n → ¬ c.Outrun as n pack blob) := by
  have hu : c'.store.Unambiguous := by
    have hboth : empty.run (past ++ as) = some c' := by rw [run_append, h, Option.bind_some, hrun]
    exact run_induction (motive := fun c => c.store.Unambiguous) unambiguous_of_step hboth
      BlobStore.unambiguous_empty
  have hreturned : ∀ n r, c.calls.length ≤ n → c'.calls[n]? = some ⟨pack, blob, .returned r⟩ →
      c'.store.findLive? pack blob = some r := fun n r hn hr =>
    hu.findLive?_eq_some_iff.mpr (holdsLive_of_returned hrun hs hn hr)
  have hrefused : ∀ n e, c.calls.length ≤ n → c'.calls[n]? = some ⟨pack, blob, .refused e⟩ →
      e = .alreadyReferenced pack blob ∧ c.Outrun as n pack blob := by
    intro n e hn he
    refine (refused_of_run hrun he).resolve_left fun hstart => ?_
    rw [List.getElem?_eq_none hn] at hstart
    cases hstart
  have houtrun : ∀ n, c.calls.length ≤ n → c.Outrun as n pack blob →
      c'.calls[n]? = some ⟨pack, blob, .refused (.alreadyReferenced pack blob)⟩ := fun n hn ho =>
    (stuck_of_outrun hrun hs ho).2.resolve_left fun hc => hover n hn (.inr hc)
  refine ⟨hreturned, fun n hn => ⟨?_, fun ho => ⟨_, houtrun n hn ho⟩⟩, fun n e hn he => ?_,
    fun hl n => not_outrun_of_hasLive hs hl, ?_, ?_⟩
  · rintro ⟨e, he⟩
    exact (hrefused n e hn he).2
  · obtain ⟨he', ho⟩ := hrefused n e hn he
    exact ⟨he', (stuck_of_outrun hrun hs ho).1⟩
  · rintro ⟨r, hr⟩ n hn ho
    cases hr n _ hn (houtrun n hn ho)
  · intro hnever
    refine ⟨(c'.store.findLive? pack blob).getD default, fun n phase hn hphase => ?_⟩
    cases phase with
    | looking => exact absurd (.inl hphase) (hover n hn)
    | creating => exact absurd (.inr hphase) (hover n hn)
    | returned r => rw [hreturned n r hn hphase, Option.getD_some]
    | refused e => exact absurd (hrefused n e hn hphase).2 (hnever n hn)

/-- A reference from the second pack to the first blob. -/
def bystander (pendingDelete : Bool) : BlobReference :=
  ⟨⟨⟨6⟩⟩, ⟨⟨2⟩⟩, ⟨⟨1⟩⟩, pendingDelete, ⟨0, 0⟩⟩

/-- The second pack has called and has its reference. -/
def beforeRivals : SharedStore :=
  ⟨⟨[bystander false]⟩, [⟨⟨⟨2⟩⟩, ⟨⟨1⟩⟩, .returned (bystander false)⟩]⟩

/-- Two calls of the first pack look before either creates, and the reference of the second pack is
marked before the slower one creates. A third call begins when there is a reference. -/
def rivals : List Access :=
  [.begin ⟨⟨1⟩⟩ ⟨⟨1⟩⟩, .begin ⟨⟨1⟩⟩ ⟨⟨1⟩⟩, .look 1, .look 2, .finish 2 ⟨⟨7⟩⟩ ⟨0, 0⟩,
    .markPendingDelete ⟨⟨6⟩⟩, .finish 1 ⟨⟨8⟩⟩ ⟨0, 0⟩, .begin ⟨⟨1⟩⟩ ⟨⟨1⟩⟩, .look 3]

/-- What the store and the calls are in the end. -/
def afterRivals : SharedStore :=
  ⟨⟨[bystander true, reference ⟨⟨7⟩⟩ false]⟩,
    [⟨⟨⟨2⟩⟩, ⟨⟨1⟩⟩, .returned (bystander false)⟩,
      ⟨⟨⟨1⟩⟩, ⟨⟨1⟩⟩, .refused (.alreadyReferenced ⟨⟨1⟩⟩ ⟨⟨1⟩⟩)⟩,
      ⟨⟨⟨1⟩⟩, ⟨⟨1⟩⟩, .returned (reference ⟨⟨7⟩⟩ false)⟩,
      ⟨⟨⟨1⟩⟩, ⟨⟨1⟩⟩, .returned (reference ⟨⟨7⟩⟩ false)⟩]⟩

theorem calls_agree_rivals :
    beforeRivals.run rivals = some afterRivals ∧ beforeRivals.Spares rivals ⟨⟨1⟩⟩ ⟨⟨1⟩⟩ ∧
    afterRivals.store.findLive? ⟨⟨1⟩⟩ ⟨⟨1⟩⟩ = some (reference ⟨⟨7⟩⟩ false) ∧
    beforeRivals.Outrun rivals 1 ⟨⟨1⟩⟩ ⟨⟨1⟩⟩ ∧ ¬ beforeRivals.Outrun rivals 3 ⟨⟨1⟩⟩ ⟨⟨1⟩⟩ ∧
    ¬ ∃ r, ∀ n phase, 1 ≤ n → afterRivals.calls[n]? = some ⟨⟨⟨1⟩⟩, ⟨⟨1⟩⟩, phase⟩ →
      phase = .returned r := by
  have hpast : empty.run [.begin ⟨⟨2⟩⟩ ⟨⟨1⟩⟩, .look 0, .finish 0 ⟨⟨6⟩⟩ ⟨0, 0⟩] = some beforeRivals := by
    decide
  have hrun : beforeRivals.run rivals = some afterRivals := by decide
  have hspares : beforeRivals.Spares rivals ⟨⟨1⟩⟩ ⟨⟨1⟩⟩ := by decide
  obtain ⟨hreturned, hrefused, -, -, hagree⟩ := calls_agree hpast hrun hspares
    fun n _ => not_underWay_of_forall (by decide) n
  have hslow : beforeRivals.Outrun rivals 1 ⟨⟨1⟩⟩ ⟨⟨1⟩⟩ := (hrefused 1 (by decide)).mp ⟨_, rfl⟩
  have hlate : ¬ beforeRivals.Outrun rivals 3 ⟨⟨1⟩⟩ ⟨⟨1⟩⟩ := by
    intro ho
    obtain ⟨e, he⟩ := (hrefused 3 (by decide)).mpr ho
    cases he
  exact ⟨hrun, hspares, hreturned 2 _ (by decide) rfl, hslow, hlate,
    fun h => hagree.mp h 1 (by decide) hslow⟩

/-- Between the two turns of a call, another one for the same pack and blob begins and ends. -/
def overtaking : List Access :=
  [.begin ⟨⟨1⟩⟩ ⟨⟨1⟩⟩, .look 0, .begin ⟨⟨1⟩⟩ ⟨⟨1⟩⟩, .look 1, .finish 1 ⟨⟨7⟩⟩ ⟨0, 0⟩,
    .finish 0 ⟨⟨8⟩⟩ ⟨0, 0⟩]

/-- What the store and the calls are in the end. -/
def afterOvertaking : SharedStore :=
  ⟨⟨[reference ⟨⟨7⟩⟩ false]⟩,
    [⟨⟨⟨1⟩⟩, ⟨⟨1⟩⟩, .refused (.alreadyReferenced ⟨⟨1⟩⟩ ⟨⟨1⟩⟩)⟩,
      ⟨⟨⟨1⟩⟩, ⟨⟨1⟩⟩, .returned (reference ⟨⟨7⟩⟩ false)⟩]⟩

/-- Nothing is marked and both calls are over, but they do not return the same reference: the one that
was overtaken is refused. -/
theorem not_calls_agree_overtaking :
    empty.run overtaking = some afterOvertaking ∧ empty.Spares overtaking ⟨⟨1⟩⟩ ⟨⟨1⟩⟩ ∧
    (∀ n, ¬ afterOvertaking.UnderWay n ⟨⟨1⟩⟩ ⟨⟨1⟩⟩) ∧
    ¬ ∃ r, ∀ (n : Nat) phase, afterOvertaking.calls[n]? = some ⟨⟨⟨1⟩⟩, ⟨⟨1⟩⟩, phase⟩ →
      phase = .returned r := by
  refine ⟨by decide, by decide, not_underWay_of_forall (by decide), ?_⟩
  rintro ⟨r, hr⟩
  cases hr 0 _ rfl

end SharedStore

end Pipeline
