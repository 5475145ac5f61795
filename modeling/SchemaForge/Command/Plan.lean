import SchemaForge.Backend
import SchemaForge.Command.Basic
import SchemaForge.Configuration
import SchemaForge.Template
import SchemaForge.TypeScript.Import.Reader

/-!
# `SchemaForge.Command.Plan` — what a command does

Everything that a command reads is read before anything is changed. So a command is a function from
what has been read to the effects that follow, and a command that fails has none.

## Contents
- **Failures.** `Failure`, why a command does nothing, and its message.
- **Effects.** `Effect`, one step of what a command does.
- **Plans.** `Command.effects`, for each command.
-/

namespace SchemaForge

open Document

/-! ## Failures -/

/-- Why a command does nothing. -/
inductive Failure where
  | unknownTarget (name : String)
  | unknownFormat (path : String)
  | unreadable (path : String) (error : FileError)
  | invalidSchema (path : String)
  | unimportable (error : TypeScript.Import.ImportError)
  | unknownTemplate (id : String)
deriving DecidableEq

/-- What is said of a failure. -/
def Failure.message : Failure → String
  | unknownTarget name    =>
    "unknown target '" ++ name ++ "' (available: "
      ++ ", ".intercalate Registry.initial.names ++ ")"
  | unknownFormat path    => Format.unknownMessage path
  | unreadable path error =>
    "failed to read " ++ (if path = Format.standardInput then "stdin" else path) ++ ": "
      ++ error.message
  | invalidSchema path    => "invalid schema in " ++ path
  | unimportable error    => error.message
  | unknownTemplate id    =>
    "unknown template '" ++ id ++ "' (available: " ++ ", ".intercalate Template.ids ++ ")"

/-! ## Effects -/

/-- One step of what a command does. -/
inductive Effect where
  | print (text : String)
  | createDirectories (path : String)
  /-- Writes a file and tells so. -/
  | write (path text : String)
deriving DecidableEq

/-- What is said if a step fails. -/
def Effect.failureMessage (effect : Effect) (error : FileError) : String :=
  match effect with
  | print _                => error.message
  | createDirectories path => "failed to create " ++ path ++ ": " ++ error.message
  | write path _           => "failed to write " ++ path ++ ": " ++ error.message

namespace Command

/-- Something that has been read: its path, and its text or why there is none. -/
structure Source where
  path : String
  content : Except FileError String

/-! ## Generating -/

/-- The text of a source. -/
def Source.text (source : Source) : Except Failure String :=
  match source.content with
  | .ok text     => .ok text
  | .error error => .error (.unreadable source.path error)

/-- The schema that a source holds. -/
def Source.schema (source : Source) : Except Failure Schema :=
  match Format.ofPath? source.path with
  | none        => .error (.unknownFormat source.path)
  | some format => do
    match format.parse (← source.text) with
    | some schema => .ok schema
    | none        => .error (.invalidSchema source.path)

/-- The file of a schema in a directory. -/
def outputPath (directory : String) (backend : Backend) (schema : Schema) : String :=
  Path.join directory (schema.name ++ "." ++ backend.extension)

/-- The codes of schemas, with an empty line between them. -/
def joined (codes : List String) : String := "\n\n".intercalate codes

/-- What generating does, once all schemas are read. -/
def generateEffects (backend : Backend) (settings : Settings) (schemas : List Schema) :
    Destination → List Effect
  | .standardOutput => [.print (joined (schemas.map (backend.generate · settings)) ++ "\n")]
  | .file path      => [.write path (joined (schemas.map (backend.generate · settings)) ++ "\n")]
  | .directory path =>
    .createDirectories path ::
      schemas.map fun schema =>
        .write (outputPath path backend schema) (backend.generate schema settings ++ "\n")

/-! ## Importing -/

/-- The description of an imported schema. -/
def importedDescription : String := "Imported from TypeScript"

/-- What is printed of an imported schema. -/
def emitted (emission : Emission) (settings : Settings) (schema : Schema) : String :=
  match emission with
  | .document format => format.render schema
  | .module          => SourceUnit.validatorAndType schema settings

/-- The schema that is imported from a source text. -/
def imported (source : String) : Except Failure Schema :=
  match TypeScript.Import.schema source with
  | .ok schema   => .ok (schema.describe importedDescription)
  | .error error => .error (.unimportable error)

/-- A text on lines of its own, without the white space at its end. -/
def trimmedLines (text : String) : String :=
  String.ofList (Text.trimEnd text.toList) ++ "\n"

/-! ## Showing -/

/-- A text with blanks up to a width. -/
def padded (width : Nat) (text : String) : String :=
  text ++ String.ofList (List.replicate (width - text.length) ' ')

/-- The line of a starter schema in the list of all. -/
def templateLine (template : Template) : String :=
  padded 14 template.id ++ " " ++ padded 14 template.title ++ " " ++ template.description ++ "\n"

/-- A starter schema as a tree. -/
def templateValue (template : Template) : Value :=
  .table [("id", .text template.id), ("name", .text template.title),
    ("description", .text template.description), ("schema", template.schema.toValue)]

/-- The line of a backend in the list of all. -/
def backendLine (backend : Backend) : String :=
  padded 18 backend.name ++ " " ++ padded 11 backend.category.name ++ " " ++ backend.language
    ++ " (." ++ backend.extension ++ ")\n"

/-- The list of all starter schemas. In their JSON form all keys are sorted. -/
def templateList (asJson : Bool) : String :=
  if asJson then Json.write (Value.list (Template.all.map templateValue)).sortKeys ++ "\n"
  else String.join (Template.all.map templateLine)

/-! ## Plans -/

/-- The effects of a command, once its sources are read. -/
def effects (configuration : Configuration) (sources : List Source) :
    Command → Except Failure (List Effect)
  | generate _ target destination style => do
    match Registry.initial.find? target with
    | none         => .error (.unknownTarget target)
    | some backend =>
      let schemas ← sources.mapM Source.schema
      .ok (generateEffects backend (configuration.resolve style) schemas destination)
  | importType _ emission style          =>
    match sources with
    | []          => .ok []
    | source :: _ => do
      let schema ← imported (← source.text)
      .ok [.print (trimmedLines (emitted emission (configuration.resolve style) schema))]
  | templates none asJson _              => .ok [.print (templateList asJson)]
  | templates (some id) asJson style     =>
    match Template.find? id with
    | none          => .error (.unknownTemplate id)
    | some template =>
      let code :=
        if asJson then Format.json.render template.schema
        else SourceUnit.validatorAndType template.schema (configuration.resolve style)
      .ok [.print (code ++ "\n")]
  | backends                             =>
    .ok [.print (String.join (Registry.initial.backends.map backendLine))]

end Command

end SchemaForge
