import Pipeline.Id
import Pipeline.Proofs.Uuid

/-!
# The kind of an id is told by its written form

* `Id.ofText?_eq_some_iff`: what is read as an id of a kind is a form of its identifier, alone or
  behind the mark of the kind.
* `Id.text_tells_kind`: so what is written of an id is read as that id, but not as one of another
  kind.
-/

namespace Pipeline

/-- No mark begins with another one. -/
theorem IdKind.eq_of_mark_prefix {kind other : IdKind}
    (h : kind.mark.toList <+: other.mark.toList) : kind = other := by
  revert h
  cases kind <;> cases other <;> decide

theorem IdKind.underscore_mem_mark (kind : IdKind) : '_' ∈ kind.mark.toList := by
  cases kind <;> decide

namespace Id

variable {kind other : IdKind} {s : String}

/-- No form of an identifier begins with a mark, so that there is one way only to read a text. -/
theorem ofText?_eq_some_iff {i : Id kind} :
    ofText? kind s = some i ↔
      i.uuid.Form s.toList ∨ ∃ cs, s.toList = kind.mark.toList ++ cs ∧ i.uuid.Form cs := by
  have hread (cs : List Char) : (Uuid.ofChars? cs).map mk = some i ↔ i.uuid.Form cs := by
    rw [← Uuid.ofChars?_eq_some_iff, Option.map_eq_some_iff]
    constructor
    · rintro ⟨u, hu, rfl⟩
      exact hu
    · intro hu
      exact ⟨i.uuid, hu, rfl⟩
  rw [ofText?, hread]
  cases h : Text.afterStart? kind.mark.toList s.toList with
  | none =>
    rw [Option.getD_none]
    refine ⟨.inl, fun hs => hs.resolve_right ?_⟩
    rintro ⟨cs, hcs, -⟩
    rw [hcs, Text.afterStart?_append] at h
    cases h
  | some rest =>
    have hs : s.toList = kind.mark.toList ++ rest := Text.eq_append_of_afterStart? h
    rw [Option.getD_some, hs]
    constructor
    · intro hrest
      exact .inr ⟨rest, rfl, hrest⟩
    · rintro (hform | ⟨cs, hcs, hform⟩)
      · exact absurd (List.mem_append_left rest kind.underscore_mem_mark) hform.underscore_not_mem
      · rwa [List.append_cancel_left hcs]

/-- What stands behind the mark of one kind is no id of another kind. -/
theorem ofText?_mark_of_ne (hne : other ≠ kind) (s : String) :
    ofText? other (kind.mark ++ s) = none := by
  refine Option.eq_none_iff_forall_ne_some.mpr fun i hi => ?_
  rw [ofText?_eq_some_iff, String.toList_append] at hi
  rcases hi with hform | ⟨cs, hcs, -⟩
  · exact hform.underscore_not_mem (List.mem_append_left _ kind.underscore_mem_mark)
  · have hother : other.mark.toList <+: kind.mark.toList ++ s.toList := ⟨cs, hcs.symm⟩
    rcases List.prefix_or_prefix_of_prefix hother (List.prefix_append _ _) with hp | hp
    · exact hne (IdKind.eq_of_mark_prefix hp)
    · exact hne (IdKind.eq_of_mark_prefix hp).symm

/-- What is written of an id is read as the id, and no other kind of id is read from it. The
identifier alone is read as an id of every kind. All this holds of each form of the identifier. -/
theorem text_tells_kind (kind : IdKind) (u : Uuid) :
    ofText? kind (text (⟨u⟩ : Id kind)) = some ⟨u⟩ ∧
    ofText? kind u.text = some ⟨u⟩ ∧
    (∀ other, other ≠ kind → ofText? other (text (⟨u⟩ : Id kind)) = none) ∧
    ∀ s, u.Form s.toList →
      ofText? kind s = some ⟨u⟩ ∧ ofText? kind (kind.mark ++ s) = some ⟨u⟩ ∧
        ∀ other, other ≠ kind → ofText? other (kind.mark ++ s) = none := by
  have hbare {s : String} (h : u.Form s.toList) : ofText? kind s = some ⟨u⟩ :=
    ofText?_eq_some_iff.mpr (.inl h)
  have hmarked {s : String} (h : u.Form s.toList) : ofText? kind (kind.mark ++ s) = some ⟨u⟩ :=
    ofText?_eq_some_iff.mpr (.inr ⟨s.toList, String.toList_append, h⟩)
  exact ⟨hmarked u.form_text, hbare u.form_text, fun other hne => ofText?_mark_of_ne hne u.text,
    fun s hs => ⟨hbare hs, hmarked hs, fun other hne => ofText?_mark_of_ne hne s⟩⟩

/-- A reference whose identifier has digits of both sorts. -/
def sample : ReferenceId := ⟨⟨0x018f3e2a7b1c7def8123456789abcdef⟩⟩

theorem text_tells_kind_sample :
    IdKind.blob ≠ .reference ∧ IdKind.pack ≠ .reference ∧
    ofText? .reference "bref_018f3e2a-7b1c-7def-8123-456789abcdef" = some sample ∧
    ofText? .blob "bref_018f3e2a-7b1c-7def-8123-456789abcdef" = none ∧
    ofText? .reference "URN:UUID:018F3E2A-7b1c-7def-8123-456789abcdef" = some sample ∧
    ofText? .pack "bref_URN:UUID:018F3E2A-7b1c-7def-8123-456789abcdef" = none := by
  have hblob : IdKind.blob ≠ .reference := by decide
  have hpack : IdKind.pack ≠ .reference := by decide
  have htext : text sample = "bref_018f3e2a-7b1c-7def-8123-456789abcdef" := by decide +kernel
  have hform : sample.uuid.Form "URN:UUID:018F3E2A-7b1c-7def-8123-456789abcdef".toList :=
    Uuid.ofChars?_eq_some_iff.mp (by decide +kernel)
  obtain ⟨hown, -, hother, hforms⟩ := text_tells_kind .reference sample.uuid
  obtain ⟨hbare, -, hmarked⟩ := hforms _ hform
  exact ⟨hblob, hpack, htext ▸ hown, htext ▸ hother .blob hblob, hbare, hmarked .pack hpack⟩

end Id

end Pipeline
