/-!
# Decimal digits of every script

The characters of the Unicode category Nd. They come in runs of ten, one run a script, with
one run of fifty mathematical digits.

* `digitRuns`: the first character and the length of each run.
* `isDigitChar`: whether a character is a decimal digit of some script.
-/

namespace Pipeline

namespace Text

/-- The first code point and the length of each run of decimal digits, in order. -/
def digitRuns : List (Nat × Nat) :=
  [(0x0030, 10), (0x0660, 10), (0x06F0, 10), (0x07C0, 10), (0x0966, 10), (0x09E6, 10),
   (0x0A66, 10), (0x0AE6, 10), (0x0B66, 10), (0x0BE6, 10), (0x0C66, 10), (0x0CE6, 10),
   (0x0D66, 10), (0x0DE6, 10), (0x0E50, 10), (0x0ED0, 10), (0x0F20, 10), (0x1040, 10),
   (0x1090, 10), (0x17E0, 10), (0x1810, 10), (0x1946, 10), (0x19D0, 10), (0x1A80, 10),
   (0x1A90, 10), (0x1B50, 10), (0x1BB0, 10), (0x1C40, 10), (0x1C50, 10), (0xA620, 10),
   (0xA8D0, 10), (0xA900, 10), (0xA9D0, 10), (0xA9F0, 10), (0xAA50, 10), (0xABF0, 10),
   (0xFF10, 10), (0x104A0, 10), (0x10D30, 10), (0x10D40, 10), (0x11066, 10), (0x110F0, 10),
   (0x11136, 10), (0x111D0, 10), (0x112F0, 10), (0x11450, 10), (0x114D0, 10), (0x11650, 10),
   (0x116C0, 10), (0x116D0, 20), (0x11730, 10), (0x118E0, 10), (0x11950, 10), (0x11BF0, 10),
   (0x11C50, 10), (0x11D50, 10), (0x11DA0, 10), (0x11F50, 10), (0x16130, 10), (0x16A60, 10),
   (0x16AC0, 10), (0x16B50, 10), (0x16D70, 10), (0x1CCF0, 10), (0x1D7CE, 50), (0x1E140, 10),
   (0x1E2F0, 10), (0x1E4F0, 10), (0x1E5F1, 10), (0x1E950, 10), (0x1FBF0, 10)]

/-- Whether a character is a decimal digit of some script. -/
def isDigitChar (c : Char) : Bool :=
  digitRuns.any fun (first, count) => first ≤ c.toNat && c.toNat < first + count

end Text

end Pipeline
