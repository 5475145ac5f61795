import SchemaForge.Document.Node
import SchemaForge.Text.Digits

/-!
# `SchemaForge.Document.Toml.Scalar` — numbers, booleans and dates in a TOML text

Each reader takes a scalar off the front of a text and gives what follows it. Digits may have single
underscores between them. An integer fits into sixty-four signed bits. A date or time is checked and
then kept as an opaque table, as no member of a schema is one.
-/

namespace SchemaForge.Document.Toml

/-! ## Digits -/

/-- What follows more digits, each perhaps after one underscore; the digits come without
    underscores. -/
def moreDigits? (base : Nat) : List Char → Option (List Char × List Char)
  | '_' :: c :: rest =>
    if Digits.isDigitOf base c then (moreDigits? base rest).map fun (ds, after) => (c :: ds, after)
    else none
  | c :: rest        =>
    if Digits.isDigitOf base c then (moreDigits? base rest).map fun (ds, after) => (c :: ds, after)
    else if c = '_' then none
    else some ([], c :: rest)
  | []               => some ([], [])

/-- A digit and what more digits follow it. -/
def digits? (base : Nat) : List Char → Option (List Char × List Char)
  | c :: rest =>
    if Digits.isDigitOf base c then (moreDigits? base rest).map fun (ds, after) => (c :: ds, after)
    else none
  | []        => none

/-- Digits without a zero before others. -/
def wholeDigits? : List Char → Option (List Char × List Char)
  | '0' :: rest => some (['0'], rest)
  | text        => digits? 10 text

/-- The sign at the front of a text, and whether it is a minus. -/
def sign : List Char → Bool × List Char
  | '-' :: rest => (true, rest)
  | '+' :: rest => (false, rest)
  | text        => (false, text)

/-! ## Numbers -/

/-- An integer of sixty-four signed bits. -/
def intScalar? (n : Int) : Option Scalar :=
  if Width.holdsSigned 63 n then some (.int n) else none

/-- The digits after a point; none if there is no point. -/
def fraction? : List Char → Option (Option (List Char) × List Char)
  | '.' :: rest => (digits? 10 rest).map fun (ds, after) => (some ds, after)
  | text        => some (none, text)

/-- The exponent after an `e`; none if there is no `e`. -/
def exponent? : List Char → Option (Option Int × List Char)
  | c :: rest =>
    if c = 'e' ∨ c = 'E' then do
      let (negative, rest) := sign rest
      let (ds, after) ← digits? 10 rest
      let magnitude : Int := Digits.value 10 ds
      some (some (if negative then -magnitude else magnitude), after)
    else some (none, c :: rest)
  | []        => some (none, [])

/-- A decimal number. One beyond all doubles is refused, unless it is negative. -/
def decimal? (text : List Char) : Option (Scalar × List Char) := do
  let (negative, rest) := sign text
  let (whole, rest) ← wholeDigits? rest
  let (fraction, rest) ← fraction? rest
  let (exponent, rest) ← exponent? rest
  match fraction, exponent with
  | none, none =>
    let magnitude : Int := Digits.value 10 whole
    let value ← intScalar? (if negative then -magnitude else magnitude)
    some (value, rest)
  | _, _       =>
    let places := fraction.getD []
    let value := Binary64.ofDecimal negative (Digits.value 10 (whole ++ places))
      (exponent.getD 0 - places.length)
    if value.isInfinite && !negative then none else some (.float value, rest)

/-- A number in a base that is a power of two, after the mark of the base. -/
def binary? (base : Nat) (text : List Char) : Option (Scalar × List Char) := do
  let (ds, after) ← digits? base text
  let value ← intScalar? (Digits.value base ds)
  some (value, after)

/-- Infinity, or the value that is not a number, after its sign. -/
def special? (negative : Bool) : List Char → Option (Scalar × List Char)
  | 'i' :: 'n' :: 'f' :: rest => some (.float (.infinity negative), rest)
  | 'n' :: 'a' :: 'n' :: rest => some (.float .nan, rest)
  | _                         => none

/-- A number of any form. -/
def number? (text : List Char) : Option (Scalar × List Char) :=
  match text with
  | '0' :: 'x' :: rest => binary? 16 rest
  | '0' :: 'o' :: rest => binary? 8 rest
  | '0' :: 'b' :: rest => binary? 2 rest
  | _                  =>
    let (negative, rest) := sign text
    match special? negative rest with
    | some found => some found
    | none       => decimal? text

/-! ## Dates and times -/

/-- A numeral of a fixed width within bounds. -/
def fixed? (width low high : Nat) (text : List Char) : Option (Nat × List Char) := do
  let n ← Digits.read? 10 (text.take width)
  if text.length < width ∨ n < low ∨ high < n then none else some (n, text.drop width)

/-- What follows a character that must stand at the front. -/
def after? (c : Char) : List Char → Option (List Char)
  | d :: rest => if c = d then some rest else none
  | []        => none

/-- How many days a month has. -/
def daysIn (year month : Nat) : Nat :=
  if month = 2 then
    if year % 4 = 0 ∧ (year % 100 ≠ 0 ∨ year % 400 = 0) then 29 else 28
  else if month = 4 ∨ month = 6 ∨ month = 9 ∨ month = 11 then 30
  else 31

/-- What follows a date. -/
def date? (text : List Char) : Option (List Char) := do
  let (year, rest) ← fixed? 4 0 9999 text
  let (month, rest) ← fixed? 2 1 12 (← after? '-' rest)
  let (_, rest) ← fixed? 2 1 (daysIn year month) (← after? '-' rest)
  some rest

/-- What follows a time of day. Seconds may have a fraction. -/
def time? (text : List Char) : Option (List Char) := do
  let (_, rest) ← fixed? 2 0 23 text
  let (_, rest) ← fixed? 2 0 59 (← after? ':' rest)
  let (_, rest) ← fixed? 2 0 60 (← after? ':' rest)
  match rest with
  | '.' :: fraction =>
    match Digits.span 10 fraction with
    | ([], _)    => some rest
    | (_, after) => some after
  | _               => some rest

/-- What follows an offset from universal time, or the text itself if there is none. -/
def offset? (text : List Char) : Option (List Char) :=
  match text with
  | 'Z' :: rest => some rest
  | 'z' :: rest => some rest
  | '+' :: rest => hours? rest
  | '-' :: rest => hours? rest
  | rest        => some rest
where
  /-- What follows hours and minutes. -/
  hours? (text : List Char) : Option (List Char) := do
    let (_, rest) ← fixed? 2 0 23 text
    let (_, rest) ← fixed? 2 0 59 (← after? ':' rest)
    some rest

/-- What follows the time after a date, or the text itself if there is none. -/
def timeOfDate? (text : List Char) : Option (List Char) :=
  match text with
  | c :: rest =>
    if c = 'T' ∨ c = 't' then (time? rest).bind offset?
    else if c = ' ' then
      match time? rest with
      | some after => offset? after
      | none       => some text
    else some text
  | []        => some []

/-- Whether a text starts like a date or a time: four digits and a dash, or two and a colon. -/
def startsDate (text : List Char) : Bool :=
  let digits := text.takeWhile (Digits.isDigitOf 10)
  match text.dropWhile (Digits.isDigitOf 10) with
  | '-' :: _ => digits.length == 4
  | ':' :: _ => digits.length == 2
  | _        => false

/-- A date, a time or both, as a table with one key that no record knows. -/
def dateTime? (text : List Char) : Option (Node × List Char) := do
  let after ←
    match date? text with
    | some rest => timeOfDate? rest
    | none      => time? text
  let written := String.ofList (text.take (text.length - after.length))
  some (.table [(.scalar (.text "$date"), .scalar (.text written))], after)

end SchemaForge.Document.Toml
