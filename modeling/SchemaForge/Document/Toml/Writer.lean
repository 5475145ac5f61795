import SchemaForge.Document.Json.Writer
import SchemaForge.Document.Toml.Line

/-!
# `SchemaForge.Document.Toml.Writer` — writing a TOML text

A table writes its plain entries first and then its tables, each under a header with the whole path;
a blank line stands before every header but the first thing of the text. A list of tables becomes an
array of tables, any other list takes one line. A table that holds only tables needs no header. Null
has no TOML form and is left out.
-/

namespace SchemaForge.Document.Toml

/-! ## Values on one line -/

/-- Doubles are positional whatever their size, and always show a point. -/
def floatStyle : NumberStyle where
  positional _ := true
  wholeEnd := ".0"
  exponentSign := ""
  zero negative := if negative then "-0.0" else "0.0"
  infinity negative := if negative then "-inf" else "inf"
  nan := "nan"
  tie := .up

/-- A key, in quotes unless all its characters may stand without. -/
def keyText (key : String) : String :=
  if key ≠ "" ∧ key.toList.all isBareChar then key else quoted key

mutual

/-- A value on one line. -/
def inlineText : Value → String
  | .null          => ""
  | .bool true     => "true"
  | .bool false    => "false"
  | .int n         => Json.intText n
  | .float x       => floatStyle.text x
  | .text text     => quoted text
  | .list items    => "[" ++ ", ".intercalate (itemTexts items) ++ "]"
  | .table []      => "\x7b\x7d"
  | .table entries => "\x7b " ++ ", ".intercalate (entryTexts entries) ++ " \x7d"

/-- The items of a list, each on one line. -/
def itemTexts : List Value → List String
  | []            => []
  | item :: items => inlineText item :: itemTexts items

/-- The entries of a table, each on one line. -/
def entryTexts : List (String × Value) → List String
  | []                      => []
  | (key, value) :: entries => (keyText key ++ " = " ++ inlineText value) :: entryTexts entries

end

/-! ## Tables -/

/-- Whether a value is a table. -/
def isTable : Value → Bool
  | .table _ => true
  | _        => false

/-- Whether a value gets headers of its own: a table, or a list of tables with one at least. -/
def hasHeader : Value → Bool
  | .table _    => true
  | .list items => !items.isEmpty && items.all isTable
  | _           => false

/-- Whether a value is left out. -/
def isAbsent : Value → Bool
  | .null => true
  | _     => false

/-- The lines of the entries that need no header. -/
def plainLines (entries : List (String × Value)) : List String :=
  (entries.filter fun entry => !hasHeader entry.2 && !isAbsent entry.2).map fun (key, value) =>
    keyText key ++ " = " ++ inlineText value

/-- The path of a header. -/
def pathText (path : List String) : String := ".".intercalate (path.map keyText)

/-- Whether a table needs a header: one that is empty does, and one with plain entries. -/
def needsHeader (entries : List (String × Value)) : Bool :=
  entries.isEmpty || !(plainLines entries).isEmpty

mutual

/-- The parts of a value under a path, each a header with the lines below it. -/
def valueParts (path : List String) : Value → List (List String)
  | .table entries =>
    (if needsHeader entries then [("[" ++ pathText path ++ "]") :: plainLines entries] else [])
      ++ entryParts path entries
  | .list items    => itemParts path items
  | _              => []

/-- The parts of the tables of an array. -/
def itemParts (path : List String) : List Value → List (List String)
  | []                      => []
  | .table entries :: items =>
    (("[[" ++ pathText path ++ "]]") :: plainLines entries) :: entryParts path entries
      ++ itemParts path items
  | _ :: items              => itemParts path items

/-- The parts of the entries of a table that have headers. -/
def entryParts (path : List String) : List (String × Value) → List (List String)
  | []                      => []
  | (key, value) :: entries =>
    (if hasHeader value then valueParts (path ++ [key]) value else []) ++ entryParts path entries

end

/-- The TOML text of a table. -/
def write : Value → String
  | .table entries =>
    let plain := plainLines entries
    let parts := (if plain.isEmpty then [] else [plain]) ++ entryParts [] entries
    "\n".intercalate (parts.map fun lines => String.join (lines.map (· ++ "\n")))
  | _              => ""

end SchemaForge.Document.Toml
