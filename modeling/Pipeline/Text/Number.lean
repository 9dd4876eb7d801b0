/-!
# Numbers as text

Numbers are read strictly: no digit separators, no blanks, and nothing behind the last digit.

* `digit?`: the value of one digit, in any radix up to 36.
* `natural?`: a non-empty run of digits.
* `unsigned?` and `signed?`: a run of decimal digits with an optional sign, within bounds.
* `decimal` and `hexadecimal`: the digits of a number without leading zeros.
-/

namespace Pipeline

namespace Text

/-- The value of a digit: `0` to `9`, then the letters of either case. -/
def digitValue? (c : Char) : Option Nat :=
  let n := c.toNat
  if 48 ≤ n ∧ n ≤ 57 then some (n - 48)
  else if 97 ≤ n ∧ n ≤ 122 then some (n - 87)
  else if 65 ≤ n ∧ n ≤ 90 then some (n - 55)
  else none

/-- The value of a digit below `radix`. -/
def digit? (radix : Nat) (c : Char) : Option Nat :=
  (digitValue? c).filter (· < radix)

/-- Whether a character is one of `0` to `9`. -/
def isDecimalDigit (c : Char) : Bool := 48 ≤ c.toNat && c.toNat ≤ 57

/-- Whether a character is a hexadecimal digit of either case. -/
def isHexDigit (c : Char) : Bool := (digit? 16 c).isSome

/-- A property of the first 128 characters holds of every one of them. -/
theorem of_toNat_lt {p : Char → Bool} (h : ∀ n < 128, p (Char.ofNat n) = true) {c : Char}
    (hc : c.toNat < 128) : p c = true := by
  simpa using h c.toNat hc

/-- Digits and letters are among the first 128 characters. -/
theorem toNat_lt_of_isHexDigit {c : Char} (h : isHexDigit c = true) : c.toNat < 128 := by
  unfold isHexDigit digit? digitValue? at h
  by_cases hc : c.toNat < 128
  · exact hc
  · have h1 : ¬ (48 ≤ c.toNat ∧ c.toNat ≤ 57) := by omega
    have h2 : ¬ (97 ≤ c.toNat ∧ c.toNat ≤ 122) := by omega
    have h3 : ¬ (65 ≤ c.toNat ∧ c.toNat ≤ 90) := by omega
    simp [h1, h2, h3] at h

/-- Reads the digits behind a number that is already known to begin with `value`. -/
def digitsFrom? (radix value : Nat) : List Char → Option Nat
  | [] => some value
  | c :: cs =>
    match digit? radix c with
    | some d => digitsFrom? radix (value * radix + d) cs
    | none => none

/-- The value of a non-empty run of digits. -/
def natural? (radix : Nat) : List Char → Option Nat
  | [] => none
  | c :: cs => digitsFrom? radix 0 (c :: cs)

/-- A number below `limit`: decimal digits behind an optional plus sign. -/
def unsigned? (limit : Nat) : List Char → Option Nat
  | '+' :: cs => (natural? 10 cs).filter (· < limit)
  | cs => (natural? 10 cs).filter (· < limit)

/-- A number from `-limit` to `limit - 1`: decimal digits behind an optional sign. -/
def signed? (limit : Nat) : List Char → Option Int
  | '-' :: cs => ((natural? 10 cs).filter (· ≤ limit)).map fun n => -(n : Int)
  | '+' :: cs => ((natural? 10 cs).filter (· < limit)).map fun n => (n : Int)
  | cs => ((natural? 10 cs).filter (· < limit)).map fun n => (n : Int)

/-- How many values a 64-bit word has. -/
def wordLimit : Nat := Nat.pow 2 64

/-- The character of a digit below 36, letters in lower case. -/
def digitChar (d : Nat) : Char := Char.ofNat (if d < 10 then 48 + d else 87 + d)

/-- The decimal digits of a number, without leading zeros. -/
def decimal (n : Nat) : List Char :=
  if n < 10 then [digitChar n] else decimal (n / 10) ++ [digitChar (n % 10)]
termination_by n

/-- The decimal text of a number. -/
def ofNat (n : Nat) : String := String.ofList (decimal n)

/-- The decimal text of an integer. -/
def ofInt : Int → String
  | .ofNat n => ofNat n
  | .negSucc n => "-" ++ ofNat (n + 1)

/-- The lowest `width` hexadecimal digits of a number, in lower case. -/
def hexadecimal : Nat → Nat → List Char
  | 0, _ => []
  | width + 1, n => hexadecimal width (n / 16) ++ [digitChar (n % 16)]

/-- The decimal digits of a number, with zeros in front up to `width` digits. -/
def zeroPadded (width n : Nat) : String :=
  let ds := decimal n
  String.ofList (List.replicate (width - ds.length) '0' ++ ds)

end Text

end Pipeline
