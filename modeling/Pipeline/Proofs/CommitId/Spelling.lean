import Pipeline.Proofs.CommitId
import Pipeline.Proofs.Json.Quoted
import Pipeline.Proofs.RoundTrip.Source
import Pipeline.Event

/-!
# One id for all of its spellings

* `Event.update`: the update of a reference as it is written, with the ids of the commits spelled in
  any way.
* `Event.decode?_update`: the event that is read of it has the ids that are read of the spellings.
* `CommitId.canonical`: whatever spells the id of a commit is read as the same id, wherever it
  stands.
-/

namespace Pipeline

open Source

/-- The update of a reference as it is written. The ids of the commits are any texts. -/
def Event.update (refName old new : String) (files : List String) : Json :=
  .obj [(kindKey, .str "ref_updated"), ("ref_name", .str refName), ("old_commit", .str old),
    ("new_commit", .str new), ("changed_files", .texts files)]

variable {settled : Bool}

@[simp] theorem CommitId.decode?_str (s : String) :
    decode? (.json settled (.str s)) = ofText? s := rfl

theorem Event.decode?_update (refName old new : String) (files : List String) :
    decode? (.json settled (update refName old new files)) =
      (CommitId.ofText? old).bind fun o =>
        (CommitId.ofText? new).bind fun n => some (.refUpdated refName o n files) := by
  have hbody : decode? (.json settled (update refName old new files)) =
      decodeRefUpdated? (.json true (.obj [("ref_name", .str refName), ("old_commit", .str old),
        ("new_commit", .str new), ("changed_files", .texts files)])) := by
    rw [decode?, update, tagged?_obj (by simp [kindKey])]
    rfl
  rw [hbody]
  simp [decodeRefUpdated?, record?_obj]

namespace CommitId

/-- A text is read as an id just if it spells digits, 1 to 64 of them, and the id has these digits in
lower case. It is zero just if all of them are. The written form is read as the id again. Two texts
are read as the same id just if they differ in the case of letters and in the blank characters
around them at most. A string of JSON is read as the text is, and it makes no difference for an
event how the ids of its commits are spelled. -/
theorem canonical (s : String) :
    ((∃ c, ofText? s = some c) ↔ ∃ ds, Spells s ds) ∧
    (∀ c, ofText? s = some c →
      (∃ ds, Spells s ds ∧ c.text.toList = ds.map Char.toLower ∧
        (c.isZero = true ↔ ∀ d ∈ ds, d = '0')) ∧
      ofText? c.text = some c ∧
      ∀ t c', ofText? t = some c' → (c = c' ↔ Alike s t)) ∧
    (Json.ofText? (Json.quoted s) = some (.str s) ∧
      ∀ settled, decode? (.json settled (.str s)) = ofText? s) ∧
    ∀ s' t t' refName files settled, Alike s s' → Alike t t' →
      Event.decode? (.json settled (Event.update refName s t files)) =
        Event.decode? (.json settled (Event.update refName s' t' files)) := by
  refine ⟨exists_ofText?_iff, fun c hc => ⟨?_, ofText?_text c, fun t c' hc' => ?_⟩,
    ⟨Json.ofText?_quoted s, fun _ => rfl⟩, ?_⟩
  · obtain ⟨ds, hds, htext⟩ := ofText?_eq_some_iff.mp hc
    exact ⟨ds, hds, htext, isZero_iff_of_map hds.isDigits htext⟩
  · constructor
    · rintro rfl
      exact alike_of_ofText?_eq hc hc'
    · intro h
      exact Option.some.inj ((ofText?_of_alike h hc).symm.trans hc')
  · intro s' t t' refName files settled hs ht
    rw [Event.decode?_update, Event.decode?_update, ofText?_eq_of_alike hs, ofText?_eq_of_alike ht]

/-- A commit whose id has letters. -/
def lettered : CommitId := ⟨"00beef", by decide⟩

/-- A tag is created: its old commit is missing, and the new one is there. -/
theorem canonical_lettered :
    ofText? " 00" = some ⟨"00", by decide⟩ ∧ (⟨"00", by decide⟩ : CommitId).isZero = true ∧
    ofText? "\t00bEEf\u3000" = some lettered ∧ ofText? "00BEEF" = some lettered ∧
    Alike " 00" "00\n" ∧ Alike "\t00bEEf\u3000" "00BEEF" ∧
    Event.decode? (.json false (Event.update "refs/tags/v1" " 00" "\t00bEEf\u3000" [])) =
      Event.decode? (.json false (Event.update "refs/tags/v1" "00\n" "00BEEF" [])) := by
  have hold : ofText? " 00" = some ⟨"00", by decide⟩ := by decide +kernel
  have hold' : ofText? "00\n" = some ⟨"00", by decide⟩ := by decide +kernel
  have hnew : ofText? "\t00bEEf\u3000" = some lettered := by decide +kernel
  have hnew' : ofText? "00BEEF" = some lettered := by decide +kernel
  obtain ⟨-, hzero, -, hevent⟩ := canonical " 00"
  obtain ⟨-, hletters, -, -⟩ := canonical "\t00bEEf\u3000"
  obtain ⟨-, -, hsame⟩ := hzero _ hold
  have halike : Alike " 00" "00\n" := (hsame _ _ hold').mp rfl
  have halike' : Alike "\t00bEEf\u3000" "00BEEF" := ((hletters _ hnew).2.2 _ _ hnew').mp rfl
  exact ⟨hold, by decide, hnew, hnew', halike, halike', hevent _ _ _ _ [] false halike halike'⟩

end CommitId

end Pipeline
