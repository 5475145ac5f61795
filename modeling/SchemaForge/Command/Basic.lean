import SchemaForge.Document.Format
import SchemaForge.Layer

/-!
# `SchemaForge.Command.Basic` — what can be asked of the program

There are four commands: to generate code for schema documents, to import a schema from TypeScript,
to show the starter schemas, and to list the backends.
-/

namespace SchemaForge

/-- What is printed of an imported schema. -/
inductive Emission where
  /-- The schema document in a format. -/
  | document (format : Document.Format)
  /-- The code of a module. -/
  | module
deriving DecidableEq

/-- The emission that a word stands for. -/
def Emission.ofName? (name : String) : Option Emission :=
  if name = "module" then some module else (Document.Format.ofName? name).map document

/-- Where generated code goes. -/
inductive Destination where
  | standardOutput
  /-- All code into one file. -/
  | file (path : String)
  /-- The code of each schema into a file of its own. -/
  | directory (path : String)
deriving DecidableEq

/-- A command with its arguments. -/
inductive Command where
  | generate (inputs : List String) (target : String) (destination : Destination) (style : Layer)
  | importType (input : String) (emission : Emission) (style : Layer)
  | templates (id : Option String) (asJson : Bool) (style : Layer)
  | backends
deriving DecidableEq

namespace Command

/-- The paths of what a command reads. -/
def inputs : Command → List String
  | generate inputs _ _ _ => inputs
  | importType input _ _  => [input]
  | templates _ _ _       => []
  | backends              => []

end Command

end SchemaForge
