import SchemaForge.Number.Notation
import SchemaForge.Field
import SchemaForge.Zod.Expr

/-!
# `SchemaForge.Zod.Chain` — the calls that a rule record asks for

Each rule record becomes a chain of method calls in a fixed order. A rule that is absent adds
nothing, and neither does an empty text. The modifiers of a field follow the chain of its rules.

## Contents
- **Arguments.** Numbers, dates and literals as they stand between the parentheses.
- **Chains.** One function per rule record, each a list of optional calls in the fixed order.
- **Expressions.** `ofRules` and `ofField`, the whole expression.
-/

namespace SchemaForge.Zod

/-! ## Arguments -/

/-- Numbers are positional from `0.000001` up to twenty-one whole digits, and both zeros are `0`. -/
def numberStyle : NumberStyle where
  positional point := decide (-6 < point) && decide (point ≤ 21)
  wholeEnd := ""
  exponentSign := "+"
  zero _ := "0"
  infinity negative := if negative then "-Infinity" else "Infinity"
  nan := "NaN"
  tie := .up

/-- A date made from a text. The text stands between the quotes as it is. -/
def dateText (iso : String) : String := "new Date('" ++ iso ++ "')"

/-! ## Optional calls -/

/-- The call of a method without argument, if its flag is set. -/
def flag (method : String) (isSet : Bool) : List Call :=
  if isSet then [⟨method, ""⟩] else []

/-- The call of a method with a count, if there is one. -/
def count (method : String) : Option UInt32 → List Call
  | some n => [⟨method, n.toNat.repr⟩]
  | none   => []

/-- The call of a method with a number, if there is one. -/
def number (method : String) : Option Binary64 → List Call
  | some x => [⟨method, numberStyle.text x⟩]
  | none   => []

/-- The call of a method with an argument made from a text, if there is one that is not empty. -/
def texted (method : String) (argument : String → String) (text : Option String) : List Call :=
  match nonempty? text with
  | some text => [⟨method, argument text⟩]
  | none      => []

/-- The bounds of a size: an exact one outranks the smallest and the largest. -/
def size (min max length : Option UInt32) : List Call :=
  if length.isSome then count "length" length
  else count "min" min ++ count "max" max

/-! ## Chains -/

def stringChain (rules : StringRules) : List Call :=
  size rules.min rules.max rules.length
    ++ flag "email" rules.email
    ++ flag "url" rules.url
    ++ flag "uuid" rules.uuid
    ++ flag "cuid" rules.cuid
    ++ texted "regex" (fun body => "/" ++ body ++ "/") rules.regex
    ++ texted "startsWith" quote rules.startsWith
    ++ texted "endsWith" quote rules.endsWith
    ++ texted "includes" quote rules.includes
    ++ flag "trim" rules.trim
    ++ flag "toLowerCase" rules.toLowerCase
    ++ flag "toUpperCase" rules.toUpperCase

def numberChain (rules : NumberRules) : List Call :=
  flag "int" rules.int
    ++ flag "finite" rules.finite
    ++ number "min" rules.min
    ++ number "max" rules.max
    ++ number "multipleOf" rules.multipleOf
    ++ flag "positive" rules.positive
    ++ flag "nonnegative" rules.nonnegative
    ++ flag "negative" rules.negative
    ++ flag "nonpositive" rules.nonpositive

def dateChain (rules : DateRules) : List Call :=
  texted "min" dateText rules.min ++ texted "max" dateText rules.max

def arrayChain (rules : ArrayRules) : List Call :=
  if rules.nonempty then flag "nonempty" true
  else size rules.min rules.max rules.length

/-! ## Expressions -/

/-- The expression of a rule record. -/
def ofRules : Rules → Expr
  | .string rules  => ⟨.string, stringChain rules⟩
  | .number rules  => ⟨.number, numberChain rules⟩
  | .boolean       => ⟨.boolean, []⟩
  | .date rules    => ⟨.date, dateChain rules⟩
  | .enum rules    => ⟨.oneOf rules.values, []⟩
  | .array rules _ => ⟨.array (.element rules.item), arrayChain rules⟩

/-- The default value of a field as an argument. A boolean is true when the text says so in any case
    of its letters, and a collection is always empty. -/
def defaultText (rules : Rules) (text : String) : String :=
  match rules with
  | .string _ | .enum _ => quote text
  | .number _           => text
  | .boolean            => if text.toLower == "true" then "true" else "false"
  | .date _             => dateText text
  | .array _ _          => "[]"

/-- The modifiers of a field: nullable, optional and a default, in this order. -/
def modifiers (field : Field) : List Call :=
  flag "nullable" field.nullable
    ++ flag "optional" (!field.required)
    ++ texted "default" (defaultText field.rules) field.defaultValue

/-- The expression of a field. -/
def ofField (field : Field) : Expr :=
  let expr := ofRules field.rules
  { expr with calls := expr.calls ++ modifiers field }

end SchemaForge.Zod
