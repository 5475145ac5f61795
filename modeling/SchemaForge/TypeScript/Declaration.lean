import SchemaForge.Settings
import SchemaForge.Text.Comment
import SchemaForge.TypeScript.Ty

/-!
# `SchemaForge.TypeScript.Declaration` — the static type of a schema

The type is declared in one of three styles. Two of them list the members, as an interface or as an
alias of an object type, and share their member lines; the third is an alias of the type that the
validator has.
-/

namespace SchemaForge.TypeScript

/-! ## Types that list their members -/

/-- The lines of one member. A field that need not be present has a question mark. -/
def memberLines (settings : Settings) (field : Field) : List String :=
  let mark := if field.required then "" else "?"
  Comment.member? (settings.fieldDoc field)
    ++ ["  " ++ field.name ++ mark ++ ": " ++ (Ty.ofField field).text ++ settings.semicolon]

/-- The line that opens a declaration listing its members. -/
def openLine (schema : Schema) (settings : Settings) (asInterface : Bool) : String :=
  settings.exportWord ++
    if asInterface then "interface " ++ settings.typeName schema ++ " \x7b"
    else "type " ++ settings.typeName schema ++ " = \x7b"

/-- The line that closes a declaration listing its members. Only an alias ends like a statement. -/
def closeLine (settings : Settings) (asInterface : Bool) : String :=
  if asInterface then "\x7d" else "\x7d" ++ settings.semicolon

/-- The declaration that lists the members, as an interface or as an alias. -/
def explicit (schema : Schema) (settings : Settings) (asInterface : Bool) : String :=
  "\n".intercalate
    (Comment.block? (settings.schemaDoc schema) []
      ++ [openLine schema settings asInterface]
      ++ schema.fields.flatMap (memberLines settings)
      ++ [closeLine settings asInterface])

/-! ## Types taken from the validator -/

/-- The declaration of an alias of the type that the validator has. -/
def inferred (schema : Schema) (settings : Settings) : String :=
  let validator := settings.schemaName schema
  "\n".intercalate
    (Comment.block? (settings.schemaDoc schema) ["Inferred from " ++ validator]
      ++ [settings.exportWord ++ "type " ++ settings.typeName schema ++ " = z.infer<typeof "
            ++ validator ++ ">" ++ settings.semicolon])

/-! ## By style -/

/-- The declaration of the type of a schema in the style of the settings. -/
def declaration (schema : Schema) (settings : Settings) : String :=
  match settings.typeStyle with
  | .infer     => inferred schema settings
  | .interface => explicit schema settings true
  | .type      => explicit schema settings false

end SchemaForge.TypeScript
