import SchemaForge.Schema

/-!
# `SchemaForge.Settings` — how code is emitted

The settings say how the static type beside a schema is declared, which words and marks go around
the declarations, and what is appended to the name of the schema to name each of them.
-/

namespace SchemaForge

/-! ## Type styles -/

/-- How the static type that goes with a schema is declared. -/
inductive TypeStyle where
  /-- An alias of the type that the validator has. -/
  | infer
  /-- An interface that lists the members. -/
  | interface
  /-- An alias of an object type that lists the members. -/
  | type
deriving DecidableEq, Inhabited

namespace TypeStyle

def name : TypeStyle → String
  | infer     => "infer"
  | interface => "interface"
  | type      => "type"

/-- The style that a word stands for. Case matters. -/
def ofName? : String → Option TypeStyle
  | "infer"     => some infer
  | "interface" => some interface
  | "type"      => some type
  | _           => none

/-- What is said of a word that stands for no style. -/
def unknownMessage (word : String) : String :=
  "unknown type style '" ++ word ++ "' (expected infer, interface or type)"

theorem ofName?_name (style : TypeStyle) : ofName? style.name = some style := by
  cases style <;> rfl

end TypeStyle

/-! ## Settings -/

/-- The settings of an emission. -/
structure Settings where
  typeStyle : TypeStyle := .infer
  /-- Whether declarations are exported. -/
  exports : Bool := true
  /-- Appended to the name of the schema to name the validator. -/
  schemaSuffix : String := "Schema"
  /-- Appended to the name of the schema to name the type. -/
  typeSuffix : String := ""
  /-- Whether descriptions become doc comments. -/
  comments : Bool := true
  semicolons : Bool := true
deriving DecidableEq, Inhabited

namespace Settings

/-- The name of the validator of a schema. -/
def schemaName (settings : Settings) (schema : Schema) : String :=
  schema.name ++ settings.schemaSuffix

/-- The name of the type of a schema. -/
def typeName (settings : Settings) (schema : Schema) : String :=
  schema.name ++ settings.typeSuffix

/-- The mark that ends a statement. -/
def semicolon (settings : Settings) : String := if settings.semicolons then ";" else ""

/-- The word that exports a declaration. -/
def exportWord (settings : Settings) : String := if settings.exports then "export " else ""

/-- The description of a schema, if it is to be emitted. -/
def schemaDoc (settings : Settings) (schema : Schema) : Option String :=
  if settings.comments then schema.doc else none

/-- The description of a field, if it is to be emitted. -/
def fieldDoc (settings : Settings) (field : Field) : Option String :=
  if settings.comments then field.doc else none

/-! ### What is emitted -/

theorem schemaDoc_eq_some {settings : Settings} {schema : Schema} {text : String}
    (h : settings.schemaDoc schema = some text) :
    settings.comments = true ∧ schema.doc = some text := by
  unfold schemaDoc at h
  split at h
  · exact ⟨‹_›, h⟩
  · exact nomatch h

theorem fieldDoc_eq_some {settings : Settings} {field : Field} {text : String}
    (h : settings.fieldDoc field = some text) :
    settings.comments = true ∧ field.doc = some text := by
  unfold fieldDoc at h
  split at h
  · exact ⟨‹_›, h⟩
  · exact nomatch h

section

variable (settings : Settings) {c : Char}

theorem not_mem_semicolon (h : c ≠ ';') : c ∉ settings.semicolon.toList := by
  unfold semicolon
  split
  · exact fun hc => h (List.mem_singleton.mp hc)
  · exact List.not_mem_nil

theorem not_mem_exportWord (h : c ∉ "export ".toList) : c ∉ settings.exportWord.toList := by
  unfold exportWord
  split
  · exact h
  · exact List.not_mem_nil

theorem not_mem_schemaName {schema : Schema} (hname : c ∉ schema.name.toList)
    (hsuffix : c ∉ settings.schemaSuffix.toList) : c ∉ (settings.schemaName schema).toList := by
  rw [schemaName, String.toList_append, List.mem_append, not_or]
  exact ⟨hname, hsuffix⟩

theorem not_mem_typeName {schema : Schema} (hname : c ∉ schema.name.toList)
    (hsuffix : c ∉ settings.typeSuffix.toList) : c ∉ (settings.typeName schema).toList := by
  rw [typeName, String.toList_append, List.mem_append, not_or]
  exact ⟨hname, hsuffix⟩

end

end Settings

end SchemaForge
