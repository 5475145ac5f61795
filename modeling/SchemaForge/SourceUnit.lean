import SchemaForge.TypeScript.Declaration
import SchemaForge.Zod.Declaration

/-!
# `SchemaForge.SourceUnit` — whole source units

A unit puts declarations together: the validator with its type, or a type that lists its members
with the inferred alias as a comment below it.
-/

namespace SchemaForge.SourceUnit

/-- The validator, a blank line, and the type in the style of the settings. -/
def validatorAndType (schema : Schema) (settings : Settings) : String :=
  Zod.declaration schema settings ++ "\n\n" ++ TypeScript.declaration schema settings

/-- The type that lists its members, and below it the inferred alias as a comment. The type is an
    interface when the settings ask for one and an alias otherwise. -/
def typeAndAlternative (schema : Schema) (settings : Settings) : String :=
  "\n".intercalate
    ["// Explicit TypeScript type",
     TypeScript.explicit schema settings (decide (settings.typeStyle = .interface)),
     "",
     "// Alternative: Inferred from Zod schema",
     "// " ++ TypeScript.inferred schema { settings with comments := false }]

end SchemaForge.SourceUnit
