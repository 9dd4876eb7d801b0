import Pipeline.Glob.Pattern

/-!
# Matching patterns

Patterns are matched against the bytes of a text in the UTF-8 form.

* `Glob.Token.rests`: what can be left of a text behind one part of a pattern.
* `Glob.Pattern.accepts`: whether a pattern matches a whole text.
-/

namespace Pipeline

namespace Glob

/-- The bytes of a character. -/
def charBytes (c : Char) : List UInt8 := String.utf8EncodeChar c

/-- The bytes of a text. -/
def textBytes (s : String) : List UInt8 := s.toList.flatMap charBytes

/-- The byte of a slash. -/
def slash : UInt8 := 47

/-- What follows the given bytes in a text that begins with them. -/
def afterBytes? : List UInt8 → List UInt8 → Option (List UInt8)
  | [], bs => some bs
  | _ :: _, [] => none
  | p :: ps, b :: bs => if p = b then afterBytes? ps bs else none

/-- What is left behind any run of bytes. -/
def afterAll : List UInt8 → List (List UInt8)
  | [] => [[]]
  | b :: bs => (b :: bs) :: afterAll bs

/-- What is left behind any run of bytes without a slash. -/
def afterSegment : List UInt8 → List (List UInt8)
  | [] => [[]]
  | b :: bs => (b :: bs) :: if b = slash then [] else afterSegment bs

/-- What is left behind any slash. -/
def afterSlashes : List UInt8 → List (List UInt8)
  | [] => []
  | b :: bs => if b = slash then bs :: afterSlashes bs else afterSlashes bs

/-- Whether a byte belongs to a range of characters. The bytes between the last one of the first
character and the first one of the last character belong to it, and so do the other bytes of
both. -/
def inRange (range : Char × Char) (b : UInt8) : Bool :=
  let first := charBytes range.1
  let last := charBytes range.2
  if range.1 = range.2 then first.contains b
  else
    first.dropLast.contains b || last.tail.contains b ||
      (first.getLast?.any (· ≤ b) && last.head?.any (b ≤ ·))

mutual

/-- Whether a part stands for nothing: a choice all of whose branches do. -/
def Token.isNothing : Token → Bool
  | .choice branches => areNothing branches
  | _ => false

/-- Whether all parts stand for nothing. -/
def isNothing : List Token → Bool
  | [] => true
  | t :: ts => t.isNothing && isNothing ts

/-- Whether all branches stand for nothing. -/
def areNothing : List (List Token) → Bool
  | [] => true
  | p :: ps => isNothing p && areNothing ps

end

mutual

/-- What can be left of a text behind a part of a pattern. -/
def Token.rests (t : Token) (bs : List UInt8) : List (List UInt8) :=
  match t with
  | .char c => (afterBytes? (charBytes c) bs).toList
  | .any =>
    match bs with
    | [] => []
    | b :: rest => if b = slash then [] else [rest]
  | .star => afterSegment bs
  | .leading => bs :: afterSlashes bs
  | .trailing =>
    match bs with
    | [] => []
    | b :: rest => if b = slash then afterAll rest else []
  | .between =>
    match bs with
    | [] => []
    | b :: rest => if b = slash then rest :: afterSlashes rest else []
  | .oneOf negated ranges =>
    match bs with
    | [] => []
    | b :: rest => if (ranges.any fun r => inRange r b) != negated then [rest] else []
  | .choice branches =>
    if areNothing branches then [bs] else (branchRests branches bs).eraseDups

/-- What can be left of a text behind one of several patterns. A branch that stands for nothing
is left out. -/
def branchRests (branches : List (List Token)) (bs : List UInt8) : List (List UInt8) :=
  match branches with
  | [] => []
  | p :: ps => (if isNothing p then [] else rests p bs) ++ branchRests ps bs

/-- What can be left of a text behind a pattern. -/
def rests (p : List Token) (bs : List UInt8) : List (List UInt8) :=
  match p with
  | [] => [bs]
  | t :: ts => ((t.rests bs).flatMap fun rest => rests ts rest).eraseDups

end

/-- Whether a pattern is nothing but a leading `**`. -/
def isEverything : Pattern → Bool
  | [.leading] => true
  | _ => false

/-- Whether a pattern matches a whole text. -/
def Pattern.accepts (p : Pattern) (text : String) : Bool :=
  isEverything p || (rests p (textBytes text)).contains []

end Glob

end Pipeline
