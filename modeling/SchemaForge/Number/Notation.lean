import SchemaForge.Number.Shortest

/-!
# `SchemaForge.Number.Notation` — writing a number by its shortest digits

All written forms of a number have the same digits and differ in where the positional form ends and
how the exponent, zero and the special values are spelled. A `NumberStyle` record holds these
choices; each output that shows numbers has one such record in the module that writes it.
-/

namespace SchemaForge

/-- The spelling of numbers in one output. -/
structure NumberStyle where
  /-- Whether a number `0.d₁…dₖ * 10 ^ point` is written without an exponent. -/
  positional : Int → Bool
  /-- What follows a whole number in positional form. -/
  wholeEnd : String
  /-- What stands before an exponent that is not negative. -/
  exponentSign : String
  /-- The text of zero with the given sign. -/
  zero : Bool → String
  /-- The text of infinity with the given sign. -/
  infinity : Bool → String
  nan : String
  tie : Tie

namespace NumberStyle

/-- The digits without an exponent, for a number `0.d₁…dₖ * 10 ^ point`. -/
def positionalText (style : NumberStyle) (digits : List Char) (point : Int) : String :=
  if point ≤ 0 then
    "0." ++ String.ofList (List.replicate (-point).toNat '0' ++ digits)
  else if digits.length ≤ point.toNat then
    String.ofList (digits ++ List.replicate (point.toNat - digits.length) '0') ++ style.wholeEnd
  else
    String.ofList (digits.take point.toNat) ++ "." ++ String.ofList (digits.drop point.toNat)

/-- The digits with an exponent, for a number `0.d₁…dₖ * 10 ^ point`. -/
def exponentText (style : NumberStyle) (digits : List Char) (point : Int) : String :=
  let fraction :=
    match digits.drop 1 with
    | []   => ""
    | rest => "." ++ String.ofList rest
  let exponent := point - 1
  let sign := if exponent < 0 then "-" else style.exponentSign
  String.ofList (digits.take 1) ++ fraction ++ "e" ++ sign ++ exponent.natAbs.repr

/-- The text of a positive decimal. -/
def decimalText (style : NumberStyle) (decimal : Decimal) : String :=
  let digits := Nat.toDigits 10 decimal.coefficient
  let point : Int := digits.length + decimal.exponent
  if style.positional point then style.positionalText digits point
  else style.exponentText digits point

/-- The text of a number. -/
def text (style : NumberStyle) (x : Binary64) : String :=
  if x.isNaN then style.nan
  else if x.isInfinite then style.infinity x.negative
  else if x.rank = 0 then style.zero x.negative
  else (if x.negative then "-" else "") ++ style.decimalText (Binary64.shortest style.tie x.rank)

end NumberStyle

end SchemaForge
