/-!
# Blank characters

What counts as white space in a specification, and the text operations that rest on it.

* `isBlankChar`: the Unicode property White_Space.
* `trim`: a text without the blank characters at its two ends.
* `isBlank`: a text that holds nothing but blank characters, the empty text included.
* `words`: the maximal runs of characters that are not blank, in order.
-/

namespace Pipeline

namespace Text

/-- The characters with the Unicode property White_Space. -/
def isBlankChar (c : Char) : Bool :=
  let n := c.toNat
  (9 ≤ n && n ≤ 13) || n == 0x20 || n == 0x85 || n == 0xA0 || n == 0x1680 ||
    (0x2000 ≤ n && n ≤ 0x200A) || n == 0x2028 || n == 0x2029 || n == 0x202F || n == 0x205F ||
    n == 0x3000

/-- The characters without those at the end for which `p` holds. -/
def dropEndWhile (p : Char → Bool) (cs : List Char) : List Char :=
  (cs.reverse.dropWhile p).reverse

/-- The characters without the blank ones at both ends. -/
def trimChars (cs : List Char) : List Char :=
  dropEndWhile isBlankChar (cs.dropWhile isBlankChar)

/-- The text without the blank characters at both ends. -/
def trim (s : String) : String := String.ofList (trimChars s.toList)

/-- Whether a text holds nothing but blank characters. -/
def isBlank (s : String) : Bool := s.toList.all isBlankChar

/-- The maximal runs of characters that are not blank, in order. -/
def wordsOf : List Char → List (List Char)
  | [] => []
  | [c] => if isBlankChar c then [] else [[c]]
  | c :: d :: cs =>
    if isBlankChar c then wordsOf (d :: cs)
    else if isBlankChar d then [c] :: wordsOf (d :: cs)
    else
      match wordsOf (d :: cs) with
      | [] => [[c]]
      | w :: ws => (c :: w) :: ws

/-- The words of a text: it is split at every run of blank characters. -/
def words (s : String) : List String := (wordsOf s.toList).map String.ofList

/-- A text whose words are separated by single spaces. -/
def joinWords (s : String) : String := String.intercalate " " (words s)

theorem isBlank_ofList (cs : List Char) : isBlank (String.ofList cs) = cs.all isBlankChar := by
  simp [isBlank]

@[simp] theorem isBlank_empty : isBlank "" = true := rfl

end Text

end Pipeline
