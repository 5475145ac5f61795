/-!
# `SchemaForge.Text.Digits` — numerals in a base

The value of a digit and of a run of digits, for the bases that documents use, and the split of a
text into the run of digits at its front and the rest.
-/

namespace SchemaForge.Digits

/-- The value of a digit in any base up to thirty-six, in either case of its letters. -/
def digitValue? (c : Char) : Option Nat :=
  if '0' ≤ c ∧ c ≤ '9' then some (c.toNat - '0'.toNat)
  else if 'a' ≤ c ∧ c ≤ 'z' then some (c.toNat - 'a'.toNat + 10)
  else if 'A' ≤ c ∧ c ≤ 'Z' then some (c.toNat - 'A'.toNat + 10)
  else none

/-- Whether a character is a digit of a base. -/
def isDigitOf (base : Nat) (c : Char) : Bool :=
  match digitValue? c with
  | some value => value < base
  | none       => false

/-- The value of a run of digits, after the digits whose value is `start`. -/
def valueFrom (base start : Nat) : List Char → Nat
  | []        => start
  | c :: rest => valueFrom base (start * base + (digitValue? c).getD 0) rest

/-- The value of a run of digits. -/
def value (base : Nat) (digits : List Char) : Nat := valueFrom base 0 digits

/-- The number that a nonempty run of digits of a base stands for. -/
def read? (base : Nat) (digits : List Char) : Option Nat :=
  if digits ≠ [] ∧ digits.all (isDigitOf base) then some (value base digits) else none

/-- The run of digits at the front of a text, and what follows it. -/
def span (base : Nat) (text : List Char) : List Char × List Char :=
  (text.takeWhile (isDigitOf base), text.dropWhile (isDigitOf base))

/-- A digit below sixteen as a character, with letters from `letter` on. -/
def hexDigit (letter : Char) (n : Nat) : Char :=
  if n < 10 then Char.ofNat ('0'.toNat + n) else Char.ofNat (letter.toNat + (n - 10))

/-- The last `width` hexadecimal digits of a number. -/
def hex (letter : Char) (width n : Nat) : List Char :=
  match width with
  | 0         => []
  | width + 1 => hex letter width (n / 16) ++ [hexDigit letter (n % 16)]

end SchemaForge.Digits
