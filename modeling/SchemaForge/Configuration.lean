import SchemaForge.Document.Codec
import SchemaForge.Document.Toml.Reader
import SchemaForge.Files
import SchemaForge.Layer

/-!
# `SchemaForge.Configuration` — where settings come from

Settings are looked for in a file for the user, in a file for the project, and in the flags of a
command, each above the one before and all above the usual settings. A file is a TOML text whose
table `output` holds the keys; a file that cannot be read, or that is wrong in any part, sets
nothing.

## Contents
- **Files.** `Layer.ofText?` and `Layer.ofFile`.
- **Settings.** `Configuration`, the texts of both files, and `Configuration.resolve`.
-/

namespace SchemaForge

open Document

/-! ## Files -/

/-- The style that a node of a configuration file stands for: a word, or a table with the word as
    its only key and nothing under it. -/
def TypeStyle.ofSetting? : Node → Option TypeStyle
  | .table [(key, .table [])] => (key.text? .direct).bind TypeStyle.ofName?
  | .table [(key, .list [])]  => (key.text? .direct).bind TypeStyle.ofName?
  | node                      => (node.text? .direct).bind TypeStyle.ofName?

namespace Layer

/-- The keys of a configuration file, in the order in which a list gives their values. -/
def keyNames : List String :=
  ["type_style", "include_exports", "schema_name_suffix", "type_name_suffix", "include_comments",
   "semicolons"]

/-- The members of a section: a table, or a list of its first values in order. -/
def members? : Node → Option Members
  | .list items => some (keyNames.zip items)
  | node        => node.members? .direct keyNames

/-- The layer that a section stands for. -/
def ofSection? (node : Node) : Option Layer := do
  let members ← members? node
  let setting {α : Type} (name : String) (read : Node → Option α) : Option (Option α) :=
    members.withDefault? name none fun node => (read node).map some
  some
    { typeStyle := ← setting "type_style" TypeStyle.ofSetting?
      exports := ← setting "include_exports" (Node.bool? .direct)
      schemaSuffix := ← setting "schema_name_suffix" (Node.text? .direct)
      typeSuffix := ← setting "type_name_suffix" (Node.text? .direct)
      comments := ← setting "include_comments" (Node.bool? .direct)
      semicolons := ← setting "semicolons" (Node.bool? .direct) }

/-- The layer that a configuration text holds in its table `output`. -/
def ofText? (text : String) : Option Layer := do
  let root ← Toml.read? text
  let members ← root.members? .direct ["output"]
  members.withDefault? "output" empty ofSection?

/-- The layer of a configuration file; one that cannot be used sets nothing. -/
def ofFile : Except FileError String → Layer
  | .ok text => (ofText? text).getD empty
  | .error _ => empty

end Layer

/-! ## Settings -/

/-- The configuration files, each with its text or why it cannot be read. -/
structure Configuration where
  user : Except FileError String := .error .notFound
  project : Except FileError String := .error .notFound

namespace Configuration

/-- The layers of both files, that of the project on top. -/
def layer (configuration : Configuration) : Layer :=
  (Layer.empty.merge (.ofFile configuration.user)).merge (.ofFile configuration.project)

/-- The settings of the files. -/
def settings (configuration : Configuration) : Settings := configuration.layer.apply {}

/-- The settings of the files with flags on top. -/
def resolve (configuration : Configuration) (flags : Layer) : Settings :=
  flags.apply configuration.settings

end Configuration

end SchemaForge
