import SchemaForge.Document.Value
import SchemaForge.Number.Notation
import SchemaForge.Text.Digits

/-!
# `SchemaForge.Document.Json.Writer` — writing a JSON text

A tree is written over several lines, two blanks deeper for each level; an empty list or table takes
one line. In a string only the quote, the backslash and control characters are escaped. A number
that is not finite has no JSON form and is written as null.
-/

namespace SchemaForge.Document.Json

/-! ## Scalars -/

/-- Doubles are positional from `0.00001` up to sixteen whole digits and always show a point or an
    exponent. -/
def floatStyle : NumberStyle where
  positional point := decide (-5 < point) && decide (point ≤ 16)
  wholeEnd := ".0"
  exponentSign := "+"
  zero negative := if negative then "-0.0" else "0.0"
  infinity _ := "null"
  nan := "null"
  tie := .even

/-- A character inside a string. -/
def escapeChar (c : Char) : List Char :=
  match c with
  | '"'    => ['\\', '"']
  | '\\'   => ['\\', '\\']
  | '\x08' => ['\\', 'b']
  | '\t'   => ['\\', 't']
  | '\n'   => ['\\', 'n']
  | '\x0c' => ['\\', 'f']
  | '\r'   => ['\\', 'r']
  | c      => if c < ' ' then ['\\', 'u'] ++ Digits.hex 'a' 4 c.toNat else [c]

/-- A text as a string. -/
def stringText (text : String) : String :=
  String.ofList ('"' :: text.toList.flatMap escapeChar ++ ['"'])

/-- An integer as a numeral. -/
def intText (n : Int) : String := (if n < 0 then "-" else "") ++ n.natAbs.repr

/-! ## Trees -/

/-- The start of a line at a level. -/
def newline (level : Nat) : String := "\n" ++ String.ofList (List.replicate (2 * level) ' ')

mutual

/-- A tree whose first line stands at a level. -/
def valueText (level : Nat) : Value → String
  | .null                   => "null"
  | .bool true              => "true"
  | .bool false             => "false"
  | .int n                  => intText n
  | .float x                => floatStyle.text x
  | .text text              => stringText text
  | .list []                => "[]"
  | .list (item :: items)   =>
    "[" ++ newline (level + 1) ++ valueText (level + 1) item ++ itemsText level items
      ++ newline level ++ "]"
  | .table []               => "\x7b\x7d"
  | .table ((key, value) :: entries) =>
    "\x7b" ++ newline (level + 1) ++ stringText key ++ ": " ++ valueText (level + 1) value
      ++ entriesText level entries ++ newline level ++ "\x7d"

/-- The items after the first, each on a line of its own. -/
def itemsText (level : Nat) : List Value → String
  | []            => ""
  | item :: items =>
    "," ++ newline (level + 1) ++ valueText (level + 1) item ++ itemsText level items

/-- The entries after the first, each on a line of its own. -/
def entriesText (level : Nat) : List (String × Value) → String
  | []                      => ""
  | (key, value) :: entries =>
    "," ++ newline (level + 1) ++ stringText key ++ ": " ++ valueText (level + 1) value
      ++ entriesText level entries

end

/-- The JSON text of a tree. -/
def write (value : Value) : String := valueText 0 value

end SchemaForge.Document.Json
