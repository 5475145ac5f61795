import SchemaForge.Text.Blank
import SchemaForge.Text.Word

/-!
# `SchemaForge.TypeScript.Import.Declared` — the first type declaration of a source text

A declaration is the word `interface` or `type` at the start of a word, white space, a name, perhaps
an equals sign, and a body between braces. The body is not empty and ends at the first closing
brace. The first place where all of this stands is the declaration of the text.
-/

namespace SchemaForge.TypeScript.Import

open Text

/-- The name and the body of a declaration. -/
structure Declared where
  name : List Char
  body : List Char
deriving DecidableEq

/-- What follows the word that starts a declaration. -/
def afterKeyword? (text : List Char) : Option (List Char) :=
  ("interface".toList.isPrefixOf? text).or ("type".toList.isPrefixOf? text)

/-- The body after an opening brace. -/
def body? (text : List Char) : Option (List Char) :=
  let body := text.takeWhile fun c => c ≠ '}'
  if body = [] ∨ text.dropWhile (fun c => c ≠ '}') = [] then none else some body

/-- What follows an equals sign and white space, if there is an equals sign. -/
def afterEquals (text : List Char) : List Char :=
  match text with
  | '=' :: rest => trimStart rest
  | rest        => rest

/-- The declaration whose first word starts the text. -/
def declaredAt? (text : List Char) : Option Declared := do
  let rest ← afterKeyword? text
  let start := trimStart rest
  let name := start.takeWhile isWord
  if start = rest ∨ name = [] then none
  else
    match afterEquals (trimStart (start.dropWhile isWord)) with
    | '{' :: inner => (body? inner).map fun body => ⟨name, body⟩
    | _            => none

/-- The first declaration of a text, which may start in the middle of a word. -/
def findFrom? (insideWord : Bool) : List Char → Option Declared
  | []        => none
  | c :: rest =>
    match if insideWord then none else declaredAt? (c :: rest) with
    | some declared => some declared
    | none          => findFrom? (isWord c) rest

/-- The first declaration of a text. -/
def Declared.find? (text : List Char) : Option Declared := findFrom? false text

end SchemaForge.TypeScript.Import
