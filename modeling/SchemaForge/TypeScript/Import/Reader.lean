import SchemaForge.Schema
import SchemaForge.TypeScript.Import.Declared
import SchemaForge.TypeScript.Import.Item
import SchemaForge.TypeScript.Import.TypeText

/-!
# `SchemaForge.TypeScript.Import.Reader` — a schema from a type declaration

The first declaration of a source text becomes a schema: its name, and a field for each member of
its body. A doc comment right before a member becomes its description; any other comment between
them takes it away. What is not understood is read as a text field, so the only error is that there
is no declaration.
-/

namespace SchemaForge.TypeScript.Import

open Text

/-- Why nothing was imported. -/
inductive ImportError where
  | noDeclaration
deriving DecidableEq

namespace ImportError

def message : ImportError → String
  | noDeclaration => "no interface or type declaration found"

end ImportError

/-- The text of a doc comment: its lines without white space and stars around them, without empty
    ones, joined by blanks. Nothing is left of a comment with only empty lines. -/
def cleanDoc? (text : List Char) : Option String :=
  let lines := (split '\n' text).map fun line => trim ((trim line).dropWhile (· == '*'))
  match lines.filter fun line => line ≠ [] with
  | []    => none
  | lines => some (String.ofList ([' '].intercalate lines))

/-- The field of a member. -/
def fieldOfMember (name : List Char) (optional : Bool) (type : List Char)
    (description : Option String) : Field where
  name := String.ofList name
  required := !optional
  nullable := allowsNull type
  description := description
  rules := rulesOfType type

/-- The fields of the members among some items, where `pending` is the description that the first
    item has if it is a member. -/
def fieldsOfItems (pending : Option String) : List Item → List Field
  | []                                    => []
  | .doc text :: items                    => fieldsOfItems (cleanDoc? text) items
  | .comment :: items                     => fieldsOfItems none items
  | .member name optional type :: items   =>
    fieldOfMember name optional (trim (withoutComment type)) pending :: fieldsOfItems none items

/-- The schema of the first declaration of a source text. -/
def schema (source : String) : Except ImportError Schema :=
  match Declared.find? source.toList with
  | none          => .error .noDeclaration
  | some declared =>
    .ok
      { name := String.ofList declared.name
        fields := fieldsOfItems none (items declared.body) }

end SchemaForge.TypeScript.Import
