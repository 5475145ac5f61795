import SchemaForge.Backend

/-!
# `Proofs.Emission.Agreement` — the emitters agree with each other

Four backends put the same few declarations together in different ways. What one of them says of a
schema is what the others say of it: a module is the validator and the type, the two styles that list
members share every line between the first and the last, and the commented alternative is the inferred
type. Each declaration depends on its own settings only, and a type that lists its members only on the
shape of the schema, which rules and defaults do not change.

## Contents
- **Shapes.** `Schema.shape`, and `Ty.ofField_shape`: the type of a field is that of its shape.
- **Validators.** `declaration_of_typeSettings`: nothing is said of the type.
- **Types.** `Settings.listing`, and `explicit_of_shape`: a type that lists its members depends on the shape
  of the schema.
- **Units.** `explicit_eq_declaration`: the type in a unit is the type of another style.
- **Registries.** `find?_foldl_register`: what is found stays found.
- **The whole.** `EmittersAgree`, and `emitters_agree`.
-/

namespace SchemaForge

/-! ## Shapes -/

/-- What rules say of the shape of a value: its kind, the literals, and the kind of the items. -/
def Rules.shape : Rules → Rules
  | string _      => string {}
  | number _      => number {}
  | boolean       => boolean
  | date _        => date {}
  | enum rules    => enum { values := rules.values }
  | array rules _ => array { item := rules.item } none

/-- A field without its default, and without the rules that do not change its shape. -/
def Field.shape (field : Field) : Field :=
  { field with defaultValue := none, rules := field.rules.shape }

/-- A schema without defaults, and without the rules that do not change the shape of a field. -/
def Schema.shape (schema : Schema) : Schema :=
  { schema with fields := schema.fields.map Field.shape }

theorem TypeScript.Ty.ofField_shape (field : Field) : Ty.ofField field.shape = Ty.ofField field := by
  have hrules : Ty.ofRules field.rules.shape = Ty.ofRules field.rules := by
    cases field.rules <;> rfl
  unfold Ty.ofField Field.shape
  dsimp only
  rw [hrules]

/-! ## Validators -/

namespace Zod

/-- The fields of a validator do not say how its type is declared. -/
theorem bodyLines_of_typeSettings (settings : Settings) (style : TypeStyle) (suffix : String)
    (fields : List Field) :
    bodyLines { settings with typeStyle := style, typeSuffix := suffix } fields
      = bodyLines settings fields := by
  -- the recursion of `bodyLines`: no field, the last field, and a field with others after it
  fun_induction bodyLines settings fields with
  | case1 => rfl
  | case2 field => rfl
  | case3 field next rest ih =>
      rw [bodyLines, ih]
      rfl

/-- **A validator does not depend on the settings of the type.** -/
theorem declaration_of_typeSettings (schema : Schema) (settings : Settings) (style : TypeStyle)
    (suffix : String) :
    declaration schema { settings with typeStyle := style, typeSuffix := suffix }
      = declaration schema settings := by
  unfold declaration
  rw [bodyLines_of_typeSettings]
  rfl

end Zod

/-! ## Types -/

/-- The settings with another style. -/
def Settings.inStyle (settings : Settings) (style : TypeStyle) : Settings :=
  { settings with typeStyle := style }

/-- The settings with a style that lists the members: an alias instead of an inferred one. -/
def Settings.listing (settings : Settings) : Settings :=
  settings.inStyle (if settings.typeStyle = .infer then .type else settings.typeStyle)

theorem Settings.listing_eq_self {settings : Settings} (h : settings.typeStyle ≠ .infer) :
    settings.listing = settings := by
  rw [listing, if_neg h]
  rfl

namespace TypeScript

variable {schema schema' : Schema}

theorem memberLines_shape (settings : Settings) (field : Field) :
    memberLines settings field.shape = memberLines settings field := by
  unfold memberLines
  rw [Ty.ofField_shape]
  rfl

theorem explicit_shape (schema : Schema) (settings : Settings) (asInterface : Bool) :
    explicit schema.shape settings asInterface = explicit schema settings asInterface := by
  have hmembers : schema.shape.fields.flatMap (memberLines settings)
      = schema.fields.flatMap (memberLines settings) := by
    unfold Schema.shape
    rw [List.flatMap_map]
    exact congrArg schema.fields.flatMap (funext (memberLines_shape settings))
  unfold explicit
  rw [hmembers]
  rfl

/-- **A type that lists its members depends on the shape of the schema**, and not on how the
    validator is named. -/
theorem explicit_of_shape (h : schema'.shape = schema.shape) (settings : Settings)
    (suffix : String) (asInterface : Bool) :
    explicit schema' { settings with schemaSuffix := suffix } asInterface
      = explicit schema settings asInterface :=
  calc explicit schema' { settings with schemaSuffix := suffix } asInterface
      = explicit schema' settings asInterface := rfl
    _ = explicit schema'.shape settings asInterface := (explicit_shape ..).symm
    _ = explicit schema.shape settings asInterface := by rw [h]
    _ = explicit schema settings asInterface := explicit_shape ..

theorem declaration_of_shape {style : TypeStyle} (hstyle : style ≠ .infer)
    (h : schema'.shape = schema.shape) (settings : Settings) (suffix : String) :
    declaration schema' { settings.inStyle style with schemaSuffix := suffix }
      = declaration schema (settings.inStyle style) := by
  cases style with
  | infer     => exact absurd rfl hstyle
  | interface => exact explicit_of_shape h (settings.inStyle .interface) suffix true
  | type      => exact explicit_of_shape h (settings.inStyle .type) suffix false

/-! ## Units -/

/-- What lists the members is the declaration in a style that lists them. -/
theorem explicit_eq_declaration (schema : Schema) (settings : Settings) :
    explicit schema settings (decide (settings.typeStyle = .interface))
      = declaration schema settings.listing := by
  unfold declaration Settings.listing Settings.inStyle
  cases settings.typeStyle with
  | infer     => rfl
  | interface => rfl
  | type      => rfl

end TypeScript

/-! ## Registries -/

namespace Registry

variable {registry : Registry} {name : String} {found : Backend}

/-- A backend that is found is found after another one is added. -/
theorem find?_register (h : registry.find? name = some found) (added : Backend) :
    (registry.register added).find? name = some found := by
  unfold find? at h
  unfold find? register
  rw [List.find?_append, h, Option.some_or]

/-- **A backend that is found is found after any others are added**, whatever their names. -/
theorem find?_foldl_register (h : registry.find? name = some found) (added : List Backend) :
    (added.foldl register registry).find? name = some found := by
  induction added generalizing registry with
  | nil => exact h
  | cons backend added ih => exact ih (find?_register h backend)

end Registry

/-! ## The whole -/

/-- The emitters say the same of a schema under the given settings. -/
structure EmittersAgree (schema : Schema) (settings : Settings) : Prop where
  /-- A module is the validator and the type. -/
  module_eq : SourceUnit.validatorAndType schema settings
    = Zod.declaration schema settings ++ "\n\n" ++ TypeScript.declaration schema settings
  interface_eq : TypeScript.declaration schema (settings.inStyle .interface)
    = "\n".intercalate (Comment.block? (settings.schemaDoc schema) []
        ++ [settings.exportWord ++ ("interface " ++ settings.typeName schema ++ " \x7b")]
        ++ schema.fields.flatMap (TypeScript.memberLines settings)
        ++ ["\x7d"])
  /-- An alias differs from an interface in the first line of the type and in the last. -/
  type_eq : TypeScript.declaration schema (settings.inStyle .type)
    = "\n".intercalate (Comment.block? (settings.schemaDoc schema) []
        ++ [settings.exportWord ++ ("type " ++ settings.typeName schema ++ " = \x7b")]
        ++ schema.fields.flatMap (TypeScript.memberLines settings)
        ++ ["\x7d" ++ settings.semicolon])
  /-- The unit of a type holds the type that lists its members and, as a comment, the other. -/
  alternative_eq : SourceUnit.typeAndAlternative schema settings
    = "\n".intercalate
        ["// Explicit TypeScript type",
         TypeScript.declaration schema settings.listing,
         "",
         "// Alternative: Inferred from Zod schema",
         "// " ++ TypeScript.declaration schema { settings.inStyle .infer with comments := false }]
  /-- A validator does not depend on the settings of the type. -/
  validator_eq : ∀ (style : TypeStyle) (suffix : String),
    Zod.declaration schema { settings with typeStyle := style, typeSuffix := suffix }
      = Zod.declaration schema settings
  /-- A type that lists its members does not depend on the settings of the validator, nor on rules
      and defaults. -/
  listed_eq : ∀ style, style ≠ .infer → ∀ (schema' : Schema) (suffix : String),
    schema'.shape = schema.shape →
      TypeScript.declaration schema' { settings.inStyle style with schemaSuffix := suffix }
        = TypeScript.declaration schema (settings.inStyle style)

/-- The emitter that a name stands for. -/
def Registry.emitter? (registry : Registry) (name : String) :
    Option (Schema → Settings → String) :=
  (registry.find? name).map Backend.generate

/-- **The emitters agree**, and however many backends are added, with whatever names, the four names
    still stand for these emitters. -/
theorem emitters_agree :
    (∀ (schema : Schema) (settings : Settings), EmittersAgree schema settings) ∧
    ∀ added : List Backend,
      let registry := added.foldl Registry.register .initial
      registry.emitter? "zod" = some Zod.declaration ∧
      registry.emitter? "typescript" = some TypeScript.declaration ∧
      registry.emitter? "typescript-module" = some SourceUnit.typeAndAlternative ∧
      registry.emitter? "module" = some SourceUnit.validatorAndType := by
  constructor
  · intro schema settings
    constructor
    case module_eq => rfl
    case interface_eq => rfl
    case type_eq => rfl
    case alternative_eq =>
      unfold SourceUnit.typeAndAlternative
      rw [TypeScript.explicit_eq_declaration]
      rfl
    case validator_eq => exact Zod.declaration_of_typeSettings schema settings
    case listed_eq =>
      intro style hstyle schema' suffix h
      exact TypeScript.declaration_of_shape hstyle h settings suffix
  · intro added registry
    have hfind : ∀ (name : String) (backend : Backend), Registry.initial.find? name = some backend →
        registry.emitter? name = some backend.generate := by
      intro name backend h
      unfold Registry.emitter?
      rw [Registry.find?_foldl_register h added, Option.map_some]
    exact ⟨hfind _ .zod rfl, hfind _ .typescript rfl, hfind _ .typescriptModule rfl,
      hfind _ .module rfl⟩

/-- A tag with bounds and a default, and a tag without: one interface. -/
theorem emitters_agree_tag :
    TypeScript.declaration
        { name := "Tag"
          fields := [{ name := "label", defaultValue := some "new"
                       rules := .string { min := some 1, email := true } }] }
        { typeStyle := .interface, schemaSuffix := "Validator" }
      = TypeScript.declaration { name := "Tag", fields := [{ name := "label", rules := .string {} }] }
        { typeStyle := .interface } :=
  (emitters_agree.1 { name := "Tag", fields := [{ name := "label", rules := .string {} }] } {}).listed_eq
    .interface (by decide) _ "Validator" rfl

end SchemaForge
