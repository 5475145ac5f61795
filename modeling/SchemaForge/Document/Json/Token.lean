import SchemaForge.Document.Node
import SchemaForge.Text.Digits

/-!
# `SchemaForge.Document.Json.Token` — the tokens of a JSON text

A JSON text is a run of tokens with blanks between them: brackets, braces, commas, colons and
scalars. A number without fraction and exponent is an integer if it fits into sixty-four bits,
signed or unsigned; every other number, negative zero included, is a double. A number beyond all
doubles and a string with half of a surrogate pair are unreadable.
-/

namespace SchemaForge.Document.Json

/-- A token. -/
inductive Token where
  | openList
  | closeList
  | openTable
  | closeTable
  | comma
  | colon
  /-- A string, whose text is missing if it is unreadable. -/
  | string (text : Option String)
  /-- A scalar that is no string. -/
  | scalar (value : Scalar)
deriving DecidableEq

/-! ## Numbers -/

/-- The double of a decimal, unless it lies beyond all of them. -/
def floatScalar (negative : Bool) (coefficient : Nat) (exponent : Int) : Scalar :=
  let value := Binary64.ofDecimal negative coefficient exponent
  if value.isFinite then .float value else .unreadable

/-- The number of an integer numeral. -/
def integerScalar (negative : Bool) (magnitude : Nat) : Scalar :=
  let n : Int := if negative then -magnitude else magnitude
  if (negative && magnitude == 0) || !(Width.holdsSigned 63 n || Width.holdsUnsigned 64 n) then
    floatScalar negative magnitude 0
  else .int n

/-- The digits after a point, which need one at least; none if there is no point. -/
def fraction? : List Char → Option (Option (List Char) × List Char)
  | '.' :: rest =>
    match Digits.span 10 rest with
    | ([], _)         => none
    | (digits, after) => some (some digits, after)
  | text        => some (none, text)

/-- The exponent after an `e`, which needs a digit at least; none if there is no `e`. -/
def exponent? : List Char → Option (Option Int × List Char)
  | e :: rest =>
    if e = 'e' ∨ e = 'E' then
      let (negative, rest) :=
        match rest with
        | '-' :: rest => (true, rest)
        | '+' :: rest => (false, rest)
        | rest        => (false, rest)
      match Digits.span 10 rest with
      | ([], _)         => none
      | (digits, after) =>
        let magnitude : Int := Digits.value 10 digits
        some (some (if negative then -magnitude else magnitude), after)
    else some (none, e :: rest)
  | []        => some (none, [])

/-- The number at the front of a text, after its sign. Only the numeral `0` starts with a zero. -/
def number? (negative : Bool) (text : List Char) : Option (Scalar × List Char) := do
  let (whole, rest) :=
    match text with
    | '0' :: rest => (['0'], rest)
    | _           => Digits.span 10 text
  if whole = [] then none
  else
    let (fraction, rest) ← fraction? rest
    let (exponent, rest) ← exponent? rest
    match fraction, exponent with
    | none, none => some (integerScalar negative (Digits.value 10 whole), rest)
    | _, _       =>
      let places := fraction.getD []
      some (floatScalar negative (Digits.value 10 (whole ++ places))
        (exponent.getD 0 - places.length), rest)

/-! ## Strings -/

/-- The character after a backslash in a short escape. -/
def shortEscape? : Char → Option Char
  | '"'  => some '"'
  | '\\' => some '\\'
  | '/'  => some '/'
  | 'b'  => some '\x08'
  | 'f'  => some '\x0c'
  | 'n'  => some '\n'
  | 'r'  => some '\r'
  | 't'  => some '\t'
  | _    => none

/-- Puts a character before a text that may be unreadable. -/
def consChar (c : Option Char) (text : Option (List Char)) : Option (List Char) :=
  match c, text with
  | some c, some text => some (c :: text)
  | _, _              => none

/-- The character of a code unit that is no half of a pair. -/
def charOfUnit (unit : Nat) : Option Char :=
  if 0xD800 ≤ unit ∧ unit < 0xE000 then none else some (Char.ofNat unit)

/-- Whether a code unit is the first half of a pair. -/
def isHighUnit (unit : Nat) : Bool := 0xD800 ≤ unit && unit < 0xDC00

/-- Whether a code unit is the second half of a pair. -/
def isLowUnit (unit : Nat) : Bool := 0xDC00 ≤ unit && unit < 0xE000

/-- The character of a pair of code units. -/
def charOfPair (high low : Nat) : Char :=
  Char.ofNat (0x10000 + (high - 0xD800) * 0x400 + (low - 0xDC00))

/-- The inside of a string up to its closing quote, and what follows the quote. The text is missing
    if it is unreadable. -/
def stringBody? : List Char → Option (Option (List Char) × List Char)
  | []          => none
  | '"' :: rest => some (some [], rest)
  | '\\' :: 'u' :: a :: b :: c :: d :: rest =>
    match Digits.read? 16 [a, b, c, d] with
    | none      => none
    | some unit =>
      match rest with
      | '\\' :: 'u' :: e :: f :: g :: h :: rest' =>
        match Digits.read? 16 [e, f, g, h] with
        | none     => none
        | some low =>
          if isHighUnit unit && isLowUnit low then
            (stringBody? rest').map (addChar (some (charOfPair unit low)))
          else
            (stringBody? ('\\' :: 'u' :: e :: f :: g :: h :: rest')).map (addChar (charOfUnit unit))
      | rest' => (stringBody? rest').map (addChar (charOfUnit unit))
  | '\\' :: c :: rest =>
    match shortEscape? c with
    | some escaped => (stringBody? rest).map (addChar (some escaped))
    | none         => none
  | c :: rest =>
    if c < ' ' ∨ c = '\\' then none else (stringBody? rest).map (addChar (some c))
termination_by structural text => text
where
  /-- Puts a character before what has been read. -/
  addChar (c : Option Char) : Option (List Char) × List Char → Option (List Char) × List Char
    | (text, after) => (consChar c text, after)

/-! ## Tokens -/

/-- The characters that may stand between tokens. -/
def isBlank (c : Char) : Bool := c == ' ' || c == '\n' || c == '\t' || c == '\r'

/-- The token at the front of a text that does not start with a blank. -/
def token? : List Char → Option (Token × List Char)
  | '[' :: rest                      => some (.openList, rest)
  | ']' :: rest                      => some (.closeList, rest)
  | '{' :: rest                      => some (.openTable, rest)
  | '}' :: rest                      => some (.closeTable, rest)
  | ',' :: rest                      => some (.comma, rest)
  | ':' :: rest                      => some (.colon, rest)
  | 'n' :: 'u' :: 'l' :: 'l' :: rest => some (.scalar .null, rest)
  | 't' :: 'r' :: 'u' :: 'e' :: rest => some (.scalar (.bool true), rest)
  | 'f' :: 'a' :: 'l' :: 's' :: 'e' :: rest => some (.scalar (.bool false), rest)
  | '"' :: rest =>
    (stringBody? rest).map fun (text, after) => (.string (text.map String.ofList), after)
  | '-' :: rest => (number? true rest).map fun (value, after) => (.scalar value, after)
  | rest        => (number? false rest).map fun (value, after) => (.scalar value, after)

/-- The tokens of a text of at most `length` characters. -/
def tokensWithin? : Nat → List Char → Option (List Token)
  | _,          []        => some []
  | 0,          _ :: _    => none
  | length + 1, c :: rest =>
    if isBlank c then tokensWithin? length rest
    else do
      let (token, after) ← token? (c :: rest)
      let tokens ← tokensWithin? length after
      some (token :: tokens)

/-- The tokens of a text. -/
def tokens? (text : List Char) : Option (List Token) := tokensWithin? text.length text

end SchemaForge.Document.Json
