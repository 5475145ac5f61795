import SchemaForge.Text.Blank
import SchemaForge.Text.Word

/-!
# `SchemaForge.TypeScript.Import.Item` — the items of a declaration's body

Reading a body finds doc comments, other comments and members, and passes over everything else. At
each place a doc comment is tried first, then a block comment, a line comment and a member. A
comment ends at the first end mark after it starts; a type ends before a semicolon, a comma or a
line end.
-/

namespace SchemaForge.TypeScript.Import

open Text

/-- An item of a body. -/
inductive Item where
  /-- A doc comment with the text inside it. -/
  | doc (text : List Char)
  | comment
  /-- A member with its name, whether a question mark follows, and the text of its type. -/
  | member (name : List Char) (optional : Bool) (type : List Char)
deriving DecidableEq

/-! ## Comments -/

/-- The text up to the first end mark of a block comment, and what follows the mark. -/
def closeComment? : List Char → Option (List Char × List Char)
  | []                 => none
  | '*' :: '/' :: rest => some ([], rest)
  | c :: rest          => (closeComment? rest).map fun (text, after) => (c :: text, after)

/-! ## Members -/

/-- Whether a character can be part of the text of a type. -/
def isTypeChar (c : Char) : Bool := c != ';' && c != ',' && c != '\n'

/-- The text of a type after its colon, and what follows it. White space before the type is passed
    over; where nothing else is left, the last white space that is no line feed stands for the
    type. -/
def typeText? (text : List Char) : Option (List Char × List Char) :=
  let start := trimStart text
  match start.takeWhile isTypeChar with
  | [] =>
    let blanks := (text.takeWhile isBlank).reverse
    match blanks.dropWhile (· == '\n') with
    | []         => none
    | blank :: _ => some ([blank], (blanks.takeWhile (· == '\n')) ++ start)
  | type => some (type, start.dropWhile isTypeChar)

/-- What follows a question mark, and whether there is one. -/
def questionMark (text : List Char) : Bool × List Char :=
  match text with
  | '?' :: rest => (true, rest)
  | rest        => (false, rest)

/-- The member at the front of a text, and what follows it. -/
def memberAt? (text : List Char) : Option (Item × List Char) :=
  let name := text.takeWhile isWord
  let (optional, rest) := questionMark (text.dropWhile isWord)
  match name, rest with
  | _ :: _, ':' :: rest =>
    (typeText? rest).map fun (type, after) => (.member name optional type, after)
  | _, _ => none

/-! ## Items -/

/-- The item at the front of a text, and what follows it. -/
def itemAt? : List Char → Option (Item × List Char)
  | '/' :: '*' :: '*' :: rest =>
    match closeComment? rest with
    | some (text, after) => some (.doc text, after)
    | none               => (closeComment? ('*' :: rest)).map fun (_, after) => (.comment, after)
  | '/' :: '*' :: rest => (closeComment? rest).map fun (_, after) => (.comment, after)
  | '/' :: '/' :: rest => some (.comment, rest.dropWhile fun c => c ≠ '\n')
  | text               => memberAt? text

/-- The items of a text after its first `skipped` characters. -/
def itemsAfter : Nat → List Char → List Item
  | _,           []        => []
  | skipped + 1, _ :: rest => itemsAfter skipped rest
  | 0,           c :: rest =>
    match itemAt? (c :: rest) with
    | some (item, after) => item :: itemsAfter (rest.length - after.length) rest
    | none               => itemsAfter 0 rest

/-- The items of a body, in order. -/
def items (body : List Char) : List Item := itemsAfter 0 body

end SchemaForge.TypeScript.Import
