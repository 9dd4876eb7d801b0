import Mathlib.Data.List.Forall2
import Pipeline.Proofs.Glob.Bytes
import Pipeline.Proofs.Glob.Language
import Pipeline.Proofs.Glob.Reading
import Pipeline.Proofs.Text.Split

/-!
# Single wildcards stay in their segment

* `Glob.Fits`: the bytes that a segment of a written pattern stands for, where nothing is said about
  slashes.
* `Glob.spells_iff_segments`: characters of a pattern stand for a text if each segment of the pattern
  stands for the segment of the text at its place.
* `Glob.matchesAny_iff_segments`: patterns of single wildcards are matched segment by segment.
-/

namespace Pipeline

namespace Glob

/-- A segment of a written pattern stands for bytes: `*` for any of them, `?` for one, and every
other character for its own. -/
inductive Fits : List Char → List UInt8 → Prop
  | nil : Fits [] []
  | star {cs : List Char} {bs : List UInt8} (run : List UInt8) :
    Fits cs bs → Fits ('*' :: cs) (run ++ bs)
  | any {cs : List Char} {bs : List UInt8} (b : UInt8) : Fits cs bs → Fits ('?' :: cs) (b :: bs)
  | char {c : Char} {cs : List Char} {bs : List UInt8} :
    c ≠ '*' → c ≠ '?' → Fits cs bs → Fits (c :: cs) (charBytes c ++ bs)

variable {c : Char} {cs ds : List Char} {bs : List UInt8}

/-- What a character of a pattern stands for by itself. -/
theorem Token.spells_ofChar_iff :
    (ofChar c).Spells bs ↔ (c = '*' ∧ slash ∉ bs) ∨ (c = '?' ∧ ∃ b, b ≠ slash ∧ bs = [b]) ∨
      (c ≠ '*' ∧ c ≠ '?' ∧ bs = charBytes c) := by
  by_cases hs : c = '*'
  · simp [ofChar, hs, spells_star_iff]
  · by_cases ha : c = '?'
    · simp [ofChar, ha, spells_any_iff]
    · simp [ofChar, hs, ha, spells_char_iff]

/-- Where there is no slash, wildcards may as well stand for slashes. -/
theorem spells_iff_fits (h : slash ∉ bs) : Spells (cs.map .ofChar) bs ↔ Fits cs bs := by
  induction cs generalizing bs with
  | nil =>
    rw [List.map_nil, spells_nil_iff]
    constructor
    · rintro rfl
      exact .nil
    · rintro ⟨⟩
      rfl
  | cons c cs ih =>
    rw [List.map_cons, spells_cons_iff]
    constructor
    · rintro ⟨run, rest, ht, hts, rfl⟩
      obtain ⟨-, hrest⟩ := not_or.mp (mt List.mem_append.mpr h)
      have hf := (ih hrest).mp hts
      rcases Token.spells_ofChar_iff.mp ht with ⟨rfl, -⟩ | ⟨rfl, b, -, rfl⟩ | ⟨hs, ha, rfl⟩
      · exact .star run hf
      · exact .any b hf
      · exact .char hs ha hf
    · rintro (_ | ⟨run, hf⟩ | ⟨b, hf⟩ | ⟨hs, ha, hf⟩)
      · obtain ⟨hrun, hrest⟩ := not_or.mp (mt List.mem_append.mpr h)
        exact ⟨run, _, Token.spells_star_iff.mpr hrun, (ih hrest).mpr hf, rfl⟩
      · obtain ⟨hb, hrest⟩ := not_or.mp (mt List.mem_cons.mpr h)
        exact ⟨[b], _, Token.spells_any_iff.mpr ⟨b, Ne.symm hb, rfl⟩, (ih hrest).mpr hf, rfl⟩
      · obtain ⟨-, hrest⟩ := not_or.mp (mt List.mem_append.mpr h)
        exact ⟨_, _, Token.spells_ofChar_iff.mpr (.inr (.inr ⟨hs, ha, rfl⟩)), (ih hrest).mpr hf, rfl⟩

/-- Without a slash in it, a pattern of single wildcards stands for nothing with a slash. -/
theorem slash_not_mem_of_spells (hc : '/' ∉ cs) (h : Spells (cs.map .ofChar) bs) : slash ∉ bs := by
  induction cs generalizing bs with
  | nil => simp [spells_nil_iff.mp h]
  | cons c cs ih =>
    obtain ⟨hne, hcs⟩ := not_or.mp (mt List.mem_cons.mpr hc)
    obtain ⟨run, rest, ht, hts, rfl⟩ := spells_cons_iff.mp h
    refine mt List.mem_append.mp (not_or.mpr ⟨?_, ih hcs hts⟩)
    rcases Token.spells_ofChar_iff.mp ht with ⟨-, hrun⟩ | ⟨-, b, hb, rfl⟩ | ⟨-, -, rfl⟩
    · exact hrun
    · exact mt List.mem_singleton.mp (Ne.symm hb)
    · exact mt slash_mem_charBytes_iff.mp (Ne.symm hne)

/-- A slash of a pattern stands for one of the text. -/
theorem spells_append_slash_iff :
    Spells ((cs ++ '/' :: ds).map .ofChar) bs ↔
      ∃ before behind, Spells (cs.map .ofChar) before ∧ Spells (ds.map .ofChar) behind ∧
        bs = before ++ slash :: behind := by
  have hslash {bs : List UInt8} : (Token.ofChar '/').Spells bs ↔ bs = [slash] := by
    simp [Token.spells_ofChar_iff]
  simp only [List.map_append, List.map_cons, spells_append_iff, spells_cons_iff, hslash]
  constructor
  · rintro ⟨before, _, hcs, ⟨_, behind, rfl, hds, rfl⟩, rfl⟩
    exact ⟨before, behind, hcs, hds, rfl⟩
  · rintro ⟨before, behind, hcs, hds, rfl⟩
    exact ⟨before, _, hcs, ⟨[slash], behind, rfl, hds, rfl⟩, rfl⟩

/-- Characters of a pattern stand for a text if each segment of the pattern stands for the segment
of the text at its place. -/
theorem spells_iff_segments (cs ds : List Char) :
    Spells (cs.map .ofChar) (bytes ds) ↔
      List.Forall₂ (fun p t => Fits p (bytes t)) (Text.pieces '/' cs) (Text.pieces '/' ds) := by
  induction cs using Text.pieces_induction '/' generalizing ds with
  | last cs hcs =>
    rw [Text.pieces_of_not_mem hcs]
    constructor
    · intro h
      have hd := slash_not_mem_of_spells hcs h
      rw [Text.pieces_of_not_mem (mt slash_mem_bytes_iff.mpr hd)]
      exact .cons ((spells_iff_fits hd).mp h) .nil
    · intro h
      by_cases hd : '/' ∈ ds
      · obtain ⟨es, fs, rfl, he⟩ := List.eq_append_cons_of_mem hd
        rw [Text.pieces_append he, List.forall₂_cons, List.forall₂_nil_left_iff] at h
        exact absurd h.2 (Text.pieces_ne_nil fs)
      · rw [Text.pieces_of_not_mem hd, List.forall₂_cons] at h
        exact (spells_iff_fits (mt slash_mem_bytes_iff.mp hd)).mpr h.1
  | piece cs rest hcs ih =>
    rw [Text.pieces_append hcs, spells_append_slash_iff]
    constructor
    · rintro ⟨before, behind, hbefore, hbehind, h⟩
      obtain ⟨es, fs, rfl, rfl, rfl⟩ := bytes_eq_append_slash_iff.mp h
      have he := slash_not_mem_of_spells hcs hbefore
      rw [Text.pieces_append (mt slash_mem_bytes_iff.mpr he)]
      exact .cons ((spells_iff_fits he).mp hbefore) ((ih fs).mp hbehind)
    · intro h
      by_cases hd : '/' ∈ ds
      · obtain ⟨es, fs, rfl, he⟩ := List.eq_append_cons_of_mem hd
        rw [Text.pieces_append he, List.forall₂_cons, ← ih,
          ← spells_iff_fits (mt slash_mem_bytes_iff.mp he)] at h
        exact ⟨_, _, h.1, h.2, by simp⟩
      · rw [Text.pieces_of_not_mem hd, List.forall₂_cons, List.forall₂_nil_right_iff] at h
        exact absurd h.2 (Text.pieces_ne_nil rest)

/-- A pattern without sets, choices, escapes and two stars in a row matches a text if both have the
same number of segments and each segment of the text is one that the segment of the pattern at its
place stands for. -/
theorem matchesAny_iff_segments {p t : String} (h : IsSimple p.toList) :
    matchesAny [p] t = true ↔
      List.Forall₂ (fun p t => Fits p (bytes t)) (Text.pieces '/' p.toList)
        (Text.pieces '/' t.toList) := by
  have hl : p.toList.map Token.ofChar ≠ [.leading] := by
    intro he
    obtain ⟨c, -, hc⟩ := List.mem_map.mp (he ▸ List.mem_singleton_self Token.leading)
    exact Token.ofChar_ne_leading hc
  rw [matchesAny_singleton_iff (ofText_of_isSimple h), or_iff_right hl]
  exact spells_iff_segments p.toList t.toList

/-- One character can take two question marks, and no wildcard takes a slash. -/
theorem matchesAny_iff_segments_accented :
    IsSimple "v*/??".toList ∧ matchesAny ["v*/??"] "v/é" = true ∧
      matchesAny ["v*/??"] "v1/2/é" = false := by
  have h : IsSimple "v*/??".toList := by decide
  have hp : Text.pieces '/' "v*/??".toList = [['v', '*'], ['?', '?']] := by decide
  have ht : Text.pieces '/' "v/é".toList = [['v'], ['é']] := by decide
  refine ⟨h, (matchesAny_iff_segments h).mpr ?_, ?_⟩
  · have hv : Fits ['v', '*'] (bytes ['v']) := .char (by decide) (by decide) (.star [] .nil)
    have he : Fits ['?', '?'] (bytes ['é']) := .any 195 (.any 169 .nil)
    rw [hp, ht]
    exact .cons hv (.cons he .nil)
  · refine Bool.eq_false_iff.mpr fun hm => ?_
    exact absurd ((matchesAny_iff_segments h).mp hm).length_eq (by decide)

end Glob

end Pipeline
