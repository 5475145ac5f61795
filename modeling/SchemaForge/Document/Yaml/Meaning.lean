import SchemaForge.Document.Node
import SchemaForge.Text.Digits

/-!
# `SchemaForge.Document.Yaml.Meaning` — what a scalar without quotes means

Without quotes, a few words mean null or a boolean, numerals mean numbers, and everything else is
the text itself. Integers may be decimal, hexadecimal, octal or binary. A run of digits that starts
with a zero is no numeral.

## Contents
- **Words.** `isNullWord` and `boolWord?`.
- **Numerals.** `integer?` and `float?`.
- **Meaning.** `meaning`, and `isAmbiguous` for the texts that quotes must protect.
-/

namespace SchemaForge.Document.Yaml

/-! ## Words -/

/-- Whether a text means null. -/
def isNullWord (text : List Char) : Bool :=
  [['~'], "null".toList, "Null".toList, "NULL".toList].contains text

/-- The boolean that a text means. -/
def boolWord? (text : List Char) : Option Bool :=
  if ["true".toList, "True".toList, "TRUE".toList].contains text then some true
  else if ["false".toList, "False".toList, "FALSE".toList].contains text then some false
  else none

/-! ## Integers -/

/-- Whether a text is two digits or more that start with a zero, after at most one sign. -/
def isPadded (text : List Char) : Bool :=
  let digits :=
    match text with
    | '-' :: rest => rest
    | '+' :: rest => rest
    | _           => text
  match digits with
  | '0' :: c :: rest => (c :: rest).all (Digits.isDigitOf 10)
  | _                => false

/-- The natural number of a numeral without a sign. -/
def natural? : List Char → Option Nat
  | '0' :: 'x' :: digits => Digits.read? 16 digits
  | '0' :: 'o' :: digits => Digits.read? 8 digits
  | '0' :: 'b' :: digits => Digits.read? 2 digits
  | digits               => if isPadded digits then none else Digits.read? 10 digits

/-- The integer of a numeral with at most one sign. -/
def integer? : List Char → Option Int
  | '-' :: rest => (natural? rest).map fun n => -n
  | '+' :: rest => (natural? rest).map fun n => n
  | text        => (natural? text).map fun n => n

/-- The scalar of an integer: held in sixty-four bits, signed or unsigned, and unreadable if it
    needs more but fits into twice as many. -/
def intScalar? (n : Int) : Option Scalar :=
  if Width.holdsSigned 63 n || Width.holdsUnsigned 64 n then some (.int n)
  else if Width.holdsSigned 127 n || Width.holdsUnsigned 128 n then some .unreadable
  else none

/-! ## Floating-point numbers -/

/-- The exponent at the end of a numeral, nothing standing for zero. -/
def exponent? : List Char → Option Int
  | []        => some 0
  | e :: rest =>
    if e = 'e' ∨ e = 'E' then
      match rest with
      | '-' :: digits => (Digits.read? 10 digits).map fun n => -n
      | '+' :: digits => (Digits.read? 10 digits).map fun n => n
      | digits        => (Digits.read? 10 digits).map fun n => n
    else none

/-- The finite number of a decimal numeral without a sign. A point may have digits on either side,
    and needs them on one. -/
def decimal? (negative : Bool) (text : List Char) : Option Binary64 := do
  let (whole, rest) := Digits.span 10 text
  let (places, rest) :=
    match rest with
    | '.' :: rest => Digits.span 10 rest
    | _           => ([], rest)
  let exponent ← exponent? rest
  let value := Binary64.ofDecimal negative (Digits.value 10 (whole ++ places))
    (exponent - places.length)
  if (whole ++ places).isEmpty || !value.isFinite then none else some value

/-- Whether a text means infinity, after its sign. -/
def isInfinityWord (text : List Char) : Bool :=
  [".inf".toList, ".Inf".toList, ".INF".toList].contains text

/-- Whether a text means the value that is not a number. -/
def isNaNWord (text : List Char) : Bool :=
  [".nan".toList, ".NaN".toList, ".NAN".toList].contains text

/-- The number of a numeral with at most one sign. -/
def float? (text : List Char) : Option Binary64 :=
  if isNaNWord text then some .nan
  else
    match text with
    | '-' :: rest =>
      if isInfinityWord rest then some (.infinity true) else decimal? true rest
    | '+' :: rest =>
      if isInfinityWord rest then some (.infinity false) else decimal? false rest
    | _           =>
      if isInfinityWord text then some (.infinity false) else decimal? false text

/-! ## Meaning -/

/-- The number of a numeral, if a text is one. -/
def numeral? (text : List Char) : Option Scalar :=
  match (integer? text).bind intScalar? with
  | some value => some value
  | none       => if isPadded text then none else (float? text).map .float

/-- What a scalar without quotes means. -/
def meaning (text : List Char) : Scalar :=
  if text.isEmpty || isNullWord text then .null
  else
    match boolWord? text with
    | some value => .bool value
    | none       => (numeral? text).getD (.text (String.ofList text))

/-- Whether a text without quotes would mean something else or be taken for a numeral. -/
def isAmbiguous (text : List Char) : Bool :=
  isPadded text || meaning text != .text (String.ofList text)

end SchemaForge.Document.Yaml
