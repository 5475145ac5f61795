import SchemaForge.Rules
import SchemaForge.Text.Blank

/-!
# `SchemaForge.TypeScript.Import.TypeText` — what the text of a type says

The text of a type is read as a union: null among its members makes a field nullable and says
nothing else. Of the other members, two brackets at the end mean a collection, quotes mean a list of
literals, and anything else is looked up as a keyword.

## Contents
- **Comments.** `withoutComment` cuts a comment off the end, outside of literals.
- **Keywords.** `keywordKind`, the kind of a word.
- **Unions.** `unionMembers`, `rulesOfUnion` and `literals?`.
-/

namespace SchemaForge.TypeScript.Import

open Text

/-! ## Comments -/

/-- The text up to a comment that starts outside of a literal. A literal ends at the next quote of
    its kind that has no backslash right before it. -/
def cutComment (quote : Option Char) (previous : Char) : List Char → List Char
  | []        => []
  | c :: rest =>
    match quote with
    | some q =>
      c :: cutComment (if c = q ∧ previous ≠ '\\' then none else some q) c rest
    | none   =>
      if c = '\'' ∨ c = '"' then c :: cutComment (some c) c rest
      else if c = '/' ∧ (rest.head? = some '/' ∨ rest.head? = some '*') then []
      else c :: cutComment none c rest

/-- The text of a type without a comment at its end. -/
def withoutComment (text : List Char) : List Char := cutComment none '\x00' text

/-! ## Keywords -/

/-- Whether a text has another one somewhere inside it. -/
def hasInside (part : List Char) : List Char → Bool
  | []        => part.isEmpty
  | c :: rest => part.isPrefixOf (c :: rest) || hasInside part rest

/-- The kind that a word stands for, in any case of its letters. A word that is not known stands for
    text, unless it has `date` in it. -/
def keywordKind (text : List Char) : Kind :=
  let word := text.map Char.toLower
  match String.ofList word with
  | "string"                   => .string
  | "number" | "int" | "float" => .number
  | "boolean" | "bool"         => .boolean
  | _                          => if hasInside "date".toList word then .date else .string

/-! ## Unions -/

/-- The member of a union that allows null. -/
def nullWord : List Char := ['n', 'u', 'l', 'l']

/-- The members of a union, trimmed, without empty ones. -/
def unionMembers (text : List Char) : List (List Char) :=
  ((split '|' text).map trim).filter fun member => member ≠ []

/-- Whether a character is a quote of either kind. -/
def isQuote (c : Char) : Bool := c == '\'' || c == '"'

/-- The literals of a union, without their quotes, if there are quotes and a literal that is not
    empty. -/
def literals? (text : List Char) : Option (List String) :=
  if text.any isQuote then
    let values := (split '|' text).map fun member => (trim member).filter fun c => !isQuote c
    match values.filter fun value => value ≠ [] with
    | []     => none
    | values => some (values.map String.ofList)
  else none

/-- The text before two brackets at its end. -/
def beforeBrackets? (text : List Char) : Option (List Char) :=
  match text.reverse with
  | ']' :: '[' :: rest => some rest.reverse
  | _                  => none

/-- The rules that a union without null stands for. -/
def rulesOfUnion (text : List Char) : Rules :=
  match beforeBrackets? text with
  | some element => .arrayOf (keywordKind (trim element))
  | none         =>
    match literals? text with
    | some values => .oneOf values
    | none        => .empty (keywordKind text)

/-- Whether the text of a type allows null. -/
def allowsNull (text : List Char) : Bool := (unionMembers text).contains nullWord

/-- The rules that the text of a type stands for, whether or not null is allowed. -/
def rulesOfType (text : List Char) : Rules :=
  rulesOfUnion
    ([' ', '|', ' '].intercalate ((unionMembers text).filter fun member => member ≠ nullWord))

end SchemaForge.TypeScript.Import
