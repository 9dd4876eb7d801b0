import Pipeline.Proofs.Glob.Bytes
import Pipeline.Proofs.Glob.Language
import Pipeline.Proofs.Glob.Reading

/-!
# Double stars cross slashes

* `Glob.ofText_below`, `Glob.ofText_atEnd`, `Glob.ofText_around`: how `**` is read behind, before and
  between texts that stand for themselves.
* `Glob.spells_literal_iff`: such a text stands for its own bytes.
* `Glob.matchesAny_doubleStar`: what is matched by `**` in each of its places.
-/

namespace Pipeline

namespace Glob

variable {a b t : String} {as bs ts : List Char} {run : List UInt8}

/-! ## Reading -/

theorem ofText_everything : ofText "**" = .ok [.leading] := by rfl

theorem ofText_below (ha : IsLiteral a.toList) :
    ofText (a ++ "/**") = .ok (a.toList.map .char ++ [.trailing]) := by
  have hs : (a ++ "/**").toList = a.toList ++ '/' :: ['*', '*'] := by simp
  rw [ofText, hs, ReadState.start, readFrom_literal ha]
  simp [readFrom, ReadState.mayCross, ReadState.cross]

theorem ofText_atEnd (ha : IsLiteral a.toList) :
    ofText ("**/" ++ a) = .ok (.leading :: a.toList.map .char) := by
  have hs : ("**/" ++ a).toList = '*' :: '*' :: '/' :: a.toList := by simp
  rw [ofText, hs, ReadState.start, readFrom]
  simp [ReadState.push, readFrom_of_isLiteral ha]

theorem ofText_around (ha : IsLiteral a.toList) (hb : IsLiteral b.toList) :
    ofText (a ++ "/**/" ++ b) = .ok (a.toList.map .char ++ .between :: b.toList.map .char) := by
  have hs : (a ++ "/**/" ++ b).toList = a.toList ++ '/' :: '*' :: '*' :: '/' :: b.toList := by simp
  rw [ofText, hs, ReadState.start, readFrom_literal ha, readFrom]
  simp [ReadState.mayCross, ReadState.cross, readFrom_of_isLiteral hb]

/-! ## Matching -/

theorem spells_literal_iff : Spells (as.map .char) run ↔ run = bytes as := by
  induction as generalizing run with
  | nil => simp
  | cons c cs ih =>
    simp only [List.map_cons, spells_cons_iff, Token.spells_char_iff, ih, bytes_cons]
    constructor
    · rintro ⟨_, _, rfl, rfl, rfl⟩
      rfl
    · rintro rfl
      exact ⟨_, _, rfl, rfl, rfl⟩

theorem spells_below_iff :
    Spells (as.map .char ++ [.trailing]) (bytes ts) ↔ ∃ us, ts = as ++ '/' :: us := by
  rw [spells_append_iff]
  constructor
  · rintro ⟨x, y, hx, hy, h⟩
    obtain ⟨_, _, ht, hnil, rfl⟩ := spells_cons_iff.mp hy
    obtain ⟨us, rfl⟩ := Token.spells_trailing_iff.mp ht
    rw [spells_nil_iff.mp hnil, List.append_nil] at h
    obtain ⟨ds, es, rfl, hd, -⟩ := bytes_eq_append_slash_iff.mp h
    exact ⟨es, by rw [bytes_inj (hd.trans (spells_literal_iff.mp hx))]⟩
  · rintro ⟨us, rfl⟩
    exact ⟨_, _, spells_literal_iff.mpr rfl, .cons (.trailing (bytes us)) .nil, by simp⟩

theorem spells_atEnd_iff :
    Spells (.leading :: as.map .char) (bytes ts) ↔ ts = as ∨ ∃ us, ts = us ++ '/' :: as := by
  rw [spells_cons_iff]
  constructor
  · rintro ⟨_, y, hx, hy, h⟩
    rw [spells_literal_iff.mp hy] at h
    obtain rfl | ⟨us, rfl⟩ := Token.spells_leading_iff.mp hx
    · exact .inl (bytes_inj h)
    · rw [List.append_assoc, List.singleton_append] at h
      obtain ⟨ds, es, rfl, -, he⟩ := bytes_eq_append_slash_iff.mp h
      exact .inr ⟨ds, by rw [bytes_inj he]⟩
  · rintro (rfl | ⟨us, rfl⟩)
    · exact ⟨[], _, .atStart, spells_literal_iff.mpr rfl, rfl⟩
    · exact ⟨_, _, .leading (bytes us), spells_literal_iff.mpr rfl, by simp⟩

theorem spells_around_iff :
    Spells (as.map .char ++ .between :: bs.map .char) (bytes ts) ↔
      ts = as ++ '/' :: bs ∨ ∃ us, ts = as ++ '/' :: us ++ '/' :: bs := by
  rw [spells_append_iff]
  constructor
  · rintro ⟨x, y, hx, hy, h⟩
    obtain ⟨_, z, ht, hz, rfl⟩ := spells_cons_iff.mp hy
    rw [spells_literal_iff.mp hx, spells_literal_iff.mp hz] at h
    obtain rfl | ⟨us, rfl⟩ := Token.spells_between_iff.mp ht
    · obtain ⟨ds, es, rfl, hd, he⟩ := bytes_eq_append_slash_iff.mp h
      exact .inl (by rw [bytes_inj hd, bytes_inj he])
    · simp only [List.cons_append, List.append_assoc] at h
      obtain ⟨ds, es, rfl, hd, he⟩ := bytes_eq_append_slash_iff.mp h
      obtain ⟨us, fs, rfl, -, hf⟩ := bytes_eq_append_slash_iff.mp he
      exact .inr ⟨us, by rw [bytes_inj hd, bytes_inj hf]; simp⟩
  · rintro (rfl | ⟨us, rfl⟩)
    · exact ⟨_, _, spells_literal_iff.mpr rfl, .cons .oneSlash (spells_literal_iff.mpr rfl),
        by simp⟩
    · exact ⟨_, _, spells_literal_iff.mpr rfl,
        .cons (.between (bytes us)) (spells_literal_iff.mpr rfl), by simp⟩

/-! ## Texts -/

theorem exists_toList_iff {P : List Char → Prop} : (∃ u : String, P u.toList) ↔ ∃ us, P us := by
  constructor
  · rintro ⟨u, h⟩
    exact ⟨u.toList, h⟩
  · rintro ⟨us, h⟩
    exact ⟨String.ofList us, by rwa [String.toList_ofList]⟩

theorem matchesAny_below_iff (ha : IsLiteral a.toList) :
    matchesAny [a ++ "/**"] t = true ↔ ∃ u, t = a ++ "/" ++ u := by
  have hl : a.toList.map Token.char ++ [.trailing] ≠ [.leading] := by
    simp [List.append_eq_singleton_iff]
  rw [matchesAny_singleton_iff (ofText_below ha), or_iff_right hl]
  refine spells_below_iff.trans ?_
  rw [← exists_toList_iff]
  simp [← String.toList_inj]

theorem matchesAny_atEnd_iff (ha : IsLiteral a.toList) (hne : a ≠ "") :
    matchesAny ["**/" ++ a] t = true ↔ t = a ∨ ∃ u, t = u ++ "/" ++ a := by
  have hl : Token.leading :: a.toList.map Token.char ≠ [.leading] := by simpa using hne
  rw [matchesAny_singleton_iff (ofText_atEnd ha), or_iff_right hl]
  refine spells_atEnd_iff.trans ?_
  rw [← exists_toList_iff]
  simp [← String.toList_inj]

theorem matchesAny_around_iff (ha : IsLiteral a.toList) (hb : IsLiteral b.toList) :
    matchesAny [a ++ "/**/" ++ b] t = true ↔
      t = a ++ "/" ++ b ∨ ∃ u, t = a ++ "/" ++ u ++ "/" ++ b := by
  have hl : a.toList.map Token.char ++ .between :: b.toList.map .char ≠ [.leading] := by
    simp [List.append_eq_singleton_iff]
  rw [matchesAny_singleton_iff (ofText_around ha hb), or_iff_right hl]
  refine spells_around_iff.trans ?_
  rw [← exists_toList_iff]
  simp [← String.toList_inj]

/-- Behind a text, `**` takes what is inside it; before one, it takes it anywhere; between two, it
takes the second one anywhere inside the first. Alone, it takes everything. -/
theorem matchesAny_doubleStar (ha : IsLiteral a.toList) (hb : IsLiteral b.toList) (hne : a ≠ "") :
    (matchesAny [a ++ "/**"] t = true ↔ ∃ u, t = a ++ "/" ++ u) ∧
    (matchesAny ["**/" ++ a] t = true ↔ t = a ∨ ∃ u, t = u ++ "/" ++ a) ∧
    (matchesAny [a ++ "/**/" ++ b] t = true ↔
      t = a ++ "/" ++ b ∨ ∃ u, t = a ++ "/" ++ u ++ "/" ++ b) ∧
    matchesAny ["**"] t = true :=
  ⟨matchesAny_below_iff ha, matchesAny_atEnd_iff ha hne, matchesAny_around_iff ha hb,
    (matchesAny_singleton_iff ofText_everything).mpr (.inl rfl)⟩

/-- A directory is not inside itself; slashes may come first or follow each other. -/
theorem matchesAny_doubleStar_edges :
    IsLiteral "src".toList ∧ IsLiteral "é".toList ∧ "src" ≠ "" ∧
      matchesAny ["src/**"] "src" = false ∧ matchesAny ["**/src"] "/src" = true ∧
      matchesAny ["src/**/é"] "src//é" = true ∧ matchesAny ["**"] "/" = true := by
  have ha : IsLiteral "src".toList := by decide
  have hb : IsLiteral "é".toList := by decide
  have hne : "src" ≠ "" := by decide
  obtain ⟨hbelow, -⟩ := @matchesAny_doubleStar "src" "é" "src" ha hb hne
  obtain ⟨-, hend, -⟩ := @matchesAny_doubleStar "src" "é" "/src" ha hb hne
  obtain ⟨-, -, haround, -⟩ := @matchesAny_doubleStar "src" "é" "src//é" ha hb hne
  obtain ⟨-, -, -, hall⟩ := @matchesAny_doubleStar "src" "é" "/" ha hb hne
  refine ⟨ha, hb, hne, Bool.eq_false_iff.mpr fun h => ?_, hend.mpr (.inr ⟨"", rfl⟩),
    haround.mpr (.inr ⟨"", rfl⟩), hall⟩
  obtain ⟨u, hu⟩ := hbelow.mp h
  simpa using congrArg String.toList hu

end Glob

end Pipeline
