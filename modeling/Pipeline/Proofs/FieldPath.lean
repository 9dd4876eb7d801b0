import Mathlib.Data.List.Basic
import Pipeline.FieldPath
import Pipeline.Proofs.Text.Number
import Pipeline.Proofs.Text.Split
import Pipeline.Proofs.Text.Trim

/-!
# Written paths lead to where they came from

* `FieldPath.Plain`: the paths whose fields have names that can be told apart in the written form.
* `FieldPath.ofText_text`: reading the written form of a plain path gives the path.
* `FieldPath.plain_ofText`: whatever is read is a plain path.
* `FieldPath.ofText_text_eq_iff`: so the plain paths are those that are read back.

The written form is read part by part, where a part is a name with the positions behind it. The
steps of a path come one at a time, so the proof goes along the path and keeps the part that the
steps so far belong to (`flatMap_readPart_pieces`).
-/

namespace Pipeline

namespace FieldPath

/-- A name that is read back from a written path: it is there, and no character of it ends it. -/
def IsName (name : String) : Prop := name ≠ "" ∧ '.' ∉ name.toList ∧ '[' ∉ name.toList

instance (name : String) : Decidable (IsName name) := inferInstanceAs (Decidable (_ ∧ _ ∧ _))

/-- Every field has a name that is read back, and every position is a number of 64 bits. -/
structure Plain (p : FieldPath) : Prop where
  names : ∀ name, .field name ∈ p → IsName name
  positions : ∀ i, .index i ∈ p → i < Text.wordLimit

theorem Plain.of_cons {step : PathSegment} {p : FieldPath} (h : Plain (step :: p)) : Plain p where
  names name hn := h.names name (List.mem_cons_of_mem _ hn)
  positions i hi := h.positions i (List.mem_cons_of_mem _ hi)

/-! ## Parts -/

/-- What stands behind the opening bracket of a position. -/
def bracket (i : Nat) : List Char := Text.decimal i ++ [']']

/-- A part of a written path: a name, which only the first part can lack, and positions. -/
def part (name : List Char) (positions : List Nat) : List Char :=
  name ++ (positions.map bracket).flatMap ('[' :: ·)

/-- The steps that a part stands for. -/
def partSteps (name : List Char) (positions : List Nat) : FieldPath :=
  (if name.isEmpty then [] else [.field (String.ofList name)]) ++ positions.map .index

theorem not_mem_bracket {i : Nat} {c : Char} (hd : Text.isDecimalDigit c = false)
    (hc : c ≠ ']') : c ∉ bracket i := by
  rw [bracket, List.mem_append, List.mem_singleton]
  exact not_or.mpr ⟨Text.not_mem_decimal hd, hc⟩

theorem readIndex?_bracket {i : Nat} (h : i < Text.wordLimit) :
    readIndex? (bracket i) = some (.index i) := by
  have hd : Text.dropEndWhile (· == ']') (bracket i) = Text.decimal i := by
    refine Text.dropEndWhile_append (fun c hc => ?_) (by simp)
    refine beq_false_of_ne fun he => ?_
    exact Text.not_mem_decimal (by decide) (he ▸ hc)
  rw [readIndex?, hd, Text.unsigned?_decimal h, Option.map_some]

theorem filterMap_readIndex? {positions : List Nat} (h : ∀ i ∈ positions, i < Text.wordLimit) :
    (positions.map bracket).filterMap readIndex? = positions.map .index := by
  rw [List.filterMap_map, ← List.filterMap_eq_map]
  exact List.filterMap_congr fun i hi => readIndex?_bracket (h i hi)

/-- A part is read as the steps that it stands for. -/
theorem readPart_part {name : List Char} {positions : List Nat} (hn : '[' ∉ name)
    (hp : ∀ i ∈ positions, i < Text.wordLimit) :
    readPart (part name positions) = partSteps name positions := by
  have hb : ∀ cs ∈ positions.map bracket, '[' ∉ cs := by
    intro cs hcs
    obtain ⟨i, -, rfl⟩ := List.mem_map.mp hcs
    exact not_mem_bracket (by decide) (by decide)
  have hr := filterMap_readIndex? hp
  cases positions with
  | nil => simp [part, partSteps, readPart, Text.cutAt_of_not_mem hn]
  | cons i is =>
    have hcut : Text.cutAt '[' (part name (i :: is)) =
        (name, some (bracket i ++ (is.map bracket).flatMap ('[' :: ·))) :=
      Text.cutAt_append hn _
    obtain ⟨hi, his⟩ := List.forall_mem_cons.mp hb
    simp only [readPart, hcut, Option.map_some, Option.getD_some, Text.pieces_flatMap hi his]
    rw [← List.map_cons, hr, partSteps]
    split <;> rfl

theorem dot_not_mem_part {name : List Char} (hn : '.' ∉ name) (positions : List Nat) :
    '.' ∉ part name positions := by
  rw [part, List.mem_append, List.mem_flatMap]
  rintro (h | ⟨cs, hcs, h⟩)
  · exact hn h
  · obtain ⟨i, -, rfl⟩ := List.mem_map.mp hcs
    rcases List.mem_cons.mp h with h | h
    · exact absurd h (by decide)
    · exact not_mem_bracket (by decide) (by decide) h

/-! ## Steps -/

theorem toList_text_field (name : String) :
    (PathSegment.field name).text.toList = '.' :: name.toList := by
  simp [PathSegment.text]

theorem toList_text_index (i : Nat) : (PathSegment.index i).text.toList = '[' :: bracket i := by
  simp [PathSegment.text, bracket, Text.ofNat]

/-- The characters of the steps behind the first one. -/
def stepChars (p : FieldPath) : List Char := p.flatMap fun step => step.text.toList

theorem toList_foldl_text (p : FieldPath) (start : String) :
    (p.foldl (fun s step => s ++ step.text) start).toList = start.toList ++ stepChars p := by
  induction p generalizing start with
  | nil => simp [stepChars]
  | cons step p ih => simp [ih, stepChars]

/-- A position belongs to the part before it. -/
theorem part_concat (name : List Char) (positions : List Nat) (i : Nat) (p : FieldPath) :
    part name positions ++ stepChars (.index i :: p) =
      part name (positions ++ [i]) ++ stepChars p := by
  simp [part, stepChars, toList_text_index]

/-- Reading on, when the steps so far have led into a part of the written form. -/
theorem flatMap_readPart_pieces {p : FieldPath} (h : p.Plain) (name : List Char)
    (positions : List Nat) (hd : '.' ∉ name) (hb : '[' ∉ name)
    (hp : ∀ i ∈ positions, i < Text.wordLimit) :
    (Text.pieces '.' (part name positions ++ stepChars p)).flatMap readPart =
      partSteps name positions ++ p := by
  induction p generalizing name positions with
  | nil =>
    rw [stepChars, List.flatMap_nil, List.append_nil, List.append_nil,
      Text.pieces_of_not_mem (dot_not_mem_part hd positions), List.flatMap_singleton,
      readPart_part hb hp]
  | cons step p ih =>
    cases step with
    | index i =>
      have hi : ∀ k ∈ positions ++ [i], k < Text.wordLimit := by
        intro k hk
        rcases List.mem_append.mp hk with hk | hk
        · exact hp k hk
        · exact List.mem_singleton.mp hk ▸ h.positions i List.mem_cons_self
      rw [part_concat, ih h.of_cons _ _ hd hb hi]
      simp [partSteps]
    | field n =>
      obtain ⟨hne, hnd, hnb⟩ := h.names n List.mem_cons_self
      have hsteps : part name positions ++ stepChars (.field n :: p) =
          part name positions ++ '.' :: (part n.toList [] ++ stepChars p) := by
        simp [part, stepChars, toList_text_field]
      have hn : partSteps n.toList [] = [.field n] := by
        simp [partSteps, hne]
      rw [hsteps, Text.pieces_append (dot_not_mem_part hd positions), List.flatMap_cons,
        readPart_part hb hp, ih h.of_cons _ _ hnd hnb (by simp), hn]
      rfl

/-- The written form of a plain path is read as the path. -/
theorem ofText_text {p : FieldPath} (h : p.Plain) : ofText p.text = p := by
  match p with
  | [] => rfl
  | .field name :: rest =>
    obtain ⟨hne, hd, hb⟩ := h.names name List.mem_cons_self
    have hr := flatMap_readPart_pieces h.of_cons name.toList [] hd hb (by simp)
    simpa [ofText, text, toList_foldl_text, part, partSteps, hne] using hr
  | .index i :: rest =>
    have hi : ∀ k ∈ [i], k < Text.wordLimit := by
      intro k hk
      exact List.mem_singleton.mp hk ▸ h.positions i List.mem_cons_self
    have hr := flatMap_readPart_pieces h.of_cons [] [i] (by simp) (by simp) hi
    simpa [ofText, text, toList_foldl_text, toList_text_index, part, partSteps] using hr

/-! ## Any text -/

theorem lt_of_readIndex? {cs : List Char} {i : Nat} (h : readIndex? cs = some (.index i)) :
    i < Text.wordLimit := by
  obtain ⟨n, hn, he⟩ := Option.map_eq_some_iff.mp h
  cases he
  exact Text.lt_of_unsigned? hn

/-- The steps of a part are a name, which stands before the first bracket, and positions. -/
theorem mem_readPart {part : List Char} {step : PathSegment} (h : step ∈ readPart part) :
    (∃ name, step = .field (String.ofList name) ∧ name ≠ [] ∧ '[' ∉ name ∧ name <+: part) ∨
      ∃ cs, readIndex? cs = some step := by
  have hsteps {parts : List (List Char)} (hs : step ∈ parts.filterMap readIndex?) :
      ∃ cs, readIndex? cs = some step := by
    obtain ⟨cs, -, hcs⟩ := List.mem_filterMap.mp hs
    exact ⟨cs, hcs⟩
  simp only [readPart] at h
  split at h
  · exact .inr (hsteps h)
  · rename_i hne
    rcases List.mem_cons.mp h with rfl | h
    · refine .inl ⟨_, rfl, ?_, Text.not_mem_cutAt_fst part, Text.cutAt_fst_prefix part⟩
      simpa using hne
    · exact .inr (hsteps h)

theorem plain_readPart {part : List Char} (hd : '.' ∉ part) : Plain (readPart part) where
  names name hn := by
    rcases mem_readPart hn with ⟨cs, he, hne, hb, hp⟩ | ⟨cs, hcs⟩
    · cases he
      refine ⟨?_, ?_, ?_⟩
      · simpa using hne
      · simpa using fun h => hd (hp.subset h)
      · simpa using hb
    · obtain ⟨i, -, he⟩ := Option.map_eq_some_iff.mp hcs
      cases he
  positions i hi := by
    rcases mem_readPart hi with ⟨cs, he, -⟩ | ⟨cs, hcs⟩
    · cases he
    · exact lt_of_readIndex? hcs

/-- Whatever the text, the path that it is read as is plain. -/
theorem plain_ofText (s : String) : Plain (ofText s) := by
  have hpart {step : PathSegment} (h : step ∈ ofText s) :
      ∃ part, step ∈ readPart part ∧ Plain (readPart part) := by
    obtain ⟨part, hp, hs⟩ := List.mem_flatMap.mp h
    exact ⟨part, hs, plain_readPart (Text.not_mem_of_mem_pieces hp)⟩
  constructor
  · intro name hn
    obtain ⟨part, hs, hplain⟩ := hpart hn
    exact hplain.names name hs
  · intro i hi
    obtain ⟨part, hs, hplain⟩ := hpart hi
    exact hplain.positions i hs

/-- A path is read back from its written form just if it is plain. Every text is read as a plain
path, so that reading once more what is written of it makes no difference. -/
theorem ofText_text_eq_iff (p : FieldPath) (s : String) :
    (ofText p.text = p ↔ p.Plain) ∧ (ofText s).Plain ∧ ofText (ofText s).text = ofText s :=
  ⟨⟨fun h => h ▸ plain_ofText p.text, ofText_text⟩, plain_ofText s, ofText_text (plain_ofText s)⟩

/-- Neither a closing bracket in a name nor a position that comes first is in the way. -/
example : ofText (text [.index 0, .field "x]", .index 1]) = [.index 0, .field "x]", .index 1] := by
  decide +kernel

end FieldPath

end Pipeline
