/-!
# Cutting and joining text

* `pieces`: the parts of a text between the occurrences of a separator.
* `cutAt`: the part before the first occurrence of a separator, and the part behind it.
* `afterStart?`: what is left of a text behind a given start.
* `joinWith`: the texts of a list with a separator between each two.
-/

namespace Pipeline

namespace Text

/-- The parts between the separators: a text with `n` separators has `n + 1` parts. -/
def pieces (sep : Char) : List Char → List (List Char)
  | [] => [[]]
  | c :: cs =>
    if c = sep then [] :: pieces sep cs
    else
      match pieces sep cs with
      | [] => [[c]]
      | p :: ps => (c :: p) :: ps

/-- The part before the first separator and, if there is one, the part behind it. -/
def cutAt (sep : Char) : List Char → List Char × Option (List Char)
  | [] => ([], none)
  | c :: cs =>
    if c = sep then ([], some cs)
    else
      let (before, behind) := cutAt sep cs
      (c :: before, behind)

/-- What follows `start` in a list that begins with it. -/
def afterStart? : List Char → List Char → Option (List Char)
  | [], cs => some cs
  | _ :: _, [] => none
  | s :: start, c :: cs => if s = c then afterStart? start cs else none

/-- What follows `start` in a text that begins with it. -/
def dropStart? (start s : String) : Option String :=
  (afterStart? start.toList s.toList).map String.ofList

/-- The texts of a list with `sep` between each two. -/
def joinWith (sep : String) (parts : List String) : String := String.intercalate sep parts

/-- A text of at least `width` characters, filled up with spaces on the right. -/
def padEnd (width : Nat) (s : String) : String :=
  s ++ String.ofList (List.replicate (width - s.length) ' ')

/-- A text of at least `width` characters, filled up with spaces on the left. -/
def padStart (width : Nat) (s : String) : String :=
  String.ofList (List.replicate (width - s.length) ' ') ++ s

theorem afterStart?_append (start rest : List Char) :
    afterStart? start (start ++ rest) = some rest := by
  induction start with
  | nil => rfl
  | cons s start ih => simp [afterStart?, ih]

theorem eq_append_of_afterStart? {start cs rest : List Char}
    (h : afterStart? start cs = some rest) : cs = start ++ rest := by
  induction start generalizing cs with
  | nil => simpa [afterStart?] using h
  | cons s start ih =>
    cases cs with
    | nil => simp [afterStart?] at h
    | cons c cs =>
      by_cases hc : s = c
      · subst hc
        simp [afterStart?] at h
        simp [ih h]
      · simp [afterStart?, hc] at h

theorem isSome_afterStart?_iff {start cs : List Char} :
    (afterStart? start cs).isSome = true ↔ start <+: cs := by
  rw [Option.isSome_iff_exists]
  constructor
  · rintro ⟨rest, h⟩
    exact ⟨rest, (eq_append_of_afterStart? h).symm⟩
  · rintro ⟨rest, rfl⟩
    exact ⟨rest, afterStart?_append start rest⟩

end Text

end Pipeline
