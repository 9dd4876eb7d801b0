import Pipeline.Text.Number

/-!
# Characters of YAML text

* `Yaml.admissible`: the characters that a stream may hold.
* `Yaml.unifyBreaks`: writes every kind of line break that counts as one in the same way.
* `Yaml.isBreak`, `Yaml.isBlank`, `Yaml.endsWord`: what separates words.
-/

namespace Pipeline

namespace Yaml

/-- The characters that a stream may hold: no control characters but tab and line breaks. -/
def admissible (c : Char) : Bool :=
  let n := c.toNat
  n == 9 || n == 10 || n == 13 || (0x20 ≤ n && n ≤ 0x7E) || n == 0x85 ||
    (0xA0 ≤ n && n ≤ 0xFFFD) || 0x10000 ≤ n

/-- Writes carriage returns, alone or before a line feed, and next-line characters as line
feeds. -/
def unifyBreaks : List Char → List Char
  | '\r' :: '\n' :: cs => '\n' :: unifyBreaks cs
  | c :: cs => (if c = '\r' ∨ c.toNat = 0x85 then '\n' else c) :: unifyBreaks cs
  | [] => []

/-- Whether a character ends a line. -/
def isBreak (c : Char) : Bool := c == '\n' || c.toNat == 0x2028 || c.toNat == 0x2029

/-- Spaces and tabs. -/
def isBlank (c : Char) : Bool := c == ' ' || c == '\t'

/-- The characters of anchor names and tag handles. -/
def isNameChar (c : Char) : Bool := c.isAlphanum || c == '-' || c == '_'

/-- Whether the text is over, or goes on with a blank or a line break. -/
def endsWord : List Char → Bool
  | [] => true
  | c :: _ => isBlank c || isBreak c

/-- Whether a line begins with three hyphens or dots that stand alone. -/
def isDocumentMark (mark : Char) : List Char → Bool
  | a :: b :: c :: rest => a == mark && b == mark && c == mark && endsWord rest
  | _ => false

/-- Whether a line begins with the mark of a new document or of the end of one. -/
def isAnyDocumentMark (cs : List Char) : Bool := isDocumentMark '-' cs || isDocumentMark '.' cs

/-- The characters that structure flow collections. -/
def isFlowIndicator (c : Char) : Bool := [',', '[', ']', '\x7b', '\x7d'].contains c

end Yaml

end Pipeline
