import SchemaForge.Settings
import SchemaForge.Text.Comment
import SchemaForge.Zod.Chain

/-!
# `SchemaForge.Zod.Declaration` — the validator of a schema

The declaration imports the validator library, shows the description of the schema, and lists the
fields in order. A comma stands between two fields and none after the last.
-/

namespace SchemaForge.Zod

/-- The lines of one field, with what ends it. -/
def fieldLines (settings : Settings) (field : Field) (ending : String) : List String :=
  Comment.member? (settings.fieldDoc field)
    ++ ["  " ++ field.name ++ ": " ++ (ofField field).text ++ ending]

/-- The lines of the fields, a comma after all but the last. -/
def bodyLines (settings : Settings) : List Field → List String
  | []                    => []
  | [field]               => fieldLines settings field ""
  | field :: next :: rest => fieldLines settings field "," ++ bodyLines settings (next :: rest)

/-- The lines before the first field. -/
def headLines (schema : Schema) (settings : Settings) : List String :=
  ["import \x7b z \x7d from 'zod'" ++ settings.semicolon, ""]
    ++ Comment.block? (settings.schemaDoc schema) []
    ++ [settings.exportWord ++ "const " ++ settings.schemaName schema ++ " = z.object(\x7b"]

/-- The declaration of the validator of a schema. -/
def declaration (schema : Schema) (settings : Settings) : String :=
  "\n".intercalate
    (headLines schema settings ++ bodyLines settings schema.fields
      ++ ["\x7d)" ++ settings.semicolon])

end SchemaForge.Zod
