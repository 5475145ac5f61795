import SchemaForge.Document.Codec
import SchemaForge.Document.Json.Reader
import SchemaForge.Document.Json.Writer
import SchemaForge.Document.Toml.Reader
import SchemaForge.Document.Toml.Writer
import SchemaForge.Document.Yaml.Reader
import SchemaForge.Document.Yaml.Writer
import SchemaForge.Path

/-!
# `SchemaForge.Document.Format` — the formats of schema documents

A schema document is a JSON, YAML or TOML text. The extension of a file tells its format; the
standard input, which the path `-` stands for, holds JSON.

## Contents
- **Formats.** `Format`, its names, and `Format.ofPath?`.
- **Reading and writing.** `Format.parse` and `Format.render`.
-/

namespace SchemaForge.Document

/-! ## Formats -/

/-- A format of schema documents. -/
inductive Format where
  | json
  | yaml
  | toml
deriving DecidableEq

namespace Format

def name : Format → String
  | json => "json"
  | yaml => "yaml"
  | toml => "toml"

/-- The format that a name stands for. -/
def ofName? : String → Option Format
  | "json" => some json
  | "yaml" => some yaml
  | "toml" => some toml
  | _      => none

@[simp] theorem ofName?_name (format : Format) : ofName? format.name = some format := by
  cases format <;> rfl

/-- The format of the files with an extension. -/
def ofExtension? : String → Option Format
  | "json" => some json
  | "yaml" => some yaml
  | "yml"  => some yaml
  | "toml" => some toml
  | _      => none

/-- The path that stands for the standard input. -/
def standardInput : String := "-"

/-- The format of the document that a path names. -/
def ofPath? (path : String) : Option Format :=
  if path = standardInput then some json else (Path.extension? path).bind ofExtension?

/-- What is said of a path whose format cannot be told. -/
def unknownMessage (path : String) : String :=
  "cannot tell the format of " ++ path ++ " (expected .json, .yaml, .yml or .toml)"

/-! ## Reading and writing -/

/-- The node that a text of a format stands for. -/
def read? : Format → String → Option Node
  | json => Json.read?
  | yaml => Yaml.read?
  | toml => Toml.read?

/-- The text of a tree in a format. -/
def write : Format → Value → String
  | json => Json.write
  | yaml => Yaml.write
  | toml => Toml.write

/-- The schema that a document holds. A YAML document is a table, and not the list of its
    members. -/
def parse (format : Format) (text : String) : Option Schema := do
  match format, ← format.read? text with
  | yaml, .list _ => none
  | _, node       => Schema.ofNode? node

/-- The document that holds a schema. -/
def render (format : Format) (schema : Schema) : String := format.write schema.toValue

end Format

end SchemaForge.Document
