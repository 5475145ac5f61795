import SchemaForge.SourceUnit

/-!
# `SchemaForge.Backend` — emitters and the registry of emitters

A backend is a named function from a schema and settings to source text. A registry is a list of
backends that only ever grows at its end; looking up a name finds the first backend that has it, so
a backend that is there is never replaced. The parts of a program share one registry, which is filled
with the built-in backends when it is first used.

## Contents
- **Backends.** `Category`, `Backend`, and the built-in ones.
- **Registries.** `Registry`, with what registers and looks up.
- **The shared registry.** `SharedRegistry`, and its `start`.
- **Calls.** `RegistryCall`, `SharedRegistry.after` and `registered`.
-/

namespace SchemaForge

/-- What a backend emits. -/
inductive Category where
  /-- Static types. -/
  | types
  /-- Validators. -/
  | validators
  /-- Validators and types in one unit. -/
  | module
deriving DecidableEq

namespace Category

def name : Category → String
  | types      => "types"
  | validators => "validators"
  | module     => "module"

def ofName? : String → Option Category
  | "types"      => some types
  | "validators" => some validators
  | "module"     => some module
  | _            => none

end Category

/-- A named emitter of source text. -/
structure Backend where
  name : String
  language : String
  /-- The extension of a file that holds the emitted text. -/
  extension : String
  category : Category
  generate : Schema → Settings → String

namespace Backend

def zod : Backend where
  name := "zod"
  language := "typescript"
  extension := "ts"
  category := .validators
  generate := Zod.declaration

def typescript : Backend where
  name := "typescript"
  language := "typescript"
  extension := "ts"
  category := .types
  generate := TypeScript.declaration

def typescriptModule : Backend where
  name := "typescript-module"
  language := "typescript"
  extension := "ts"
  category := .types
  generate := SourceUnit.typeAndAlternative

def module : Backend where
  name := "module"
  language := "typescript"
  extension := "ts"
  category := .module
  generate := SourceUnit.validatorAndType

/-- The backends that every registry starts with. -/
def builtin : List Backend := [zod, typescript, typescriptModule, module]

end Backend

/-! ## Registries -/

/-- The backends that have been registered, in order. -/
structure Registry where
  backends : List Backend

namespace Registry

/-- The registry before anything is added to it. -/
def initial : Registry := ⟨Backend.builtin⟩

/-- Adds a backend at the end. -/
def register (registry : Registry) (backend : Backend) : Registry :=
  ⟨registry.backends ++ [backend]⟩

/-- The first backend of a name. -/
def find? (registry : Registry) (name : String) : Option Backend :=
  registry.backends.find? fun backend => backend.name == name

/-- The backends of a category, in order. -/
def ofCategory (registry : Registry) (category : Category) : List Backend :=
  registry.backends.filter fun backend => backend.category == category

/-- The names of all backends, in order. -/
def names (registry : Registry) : List String := registry.backends.map Backend.name

@[simp] theorem names_register (registry : Registry) (backend : Backend) :
    (registry.register backend).names = registry.names ++ [backend.name] := by
  simp [names, register]

end Registry

/-! ## The shared registry -/

/-- A registry that is filled with the built-in backends when it is first used. -/
structure SharedRegistry where
  started : Bool
  registry : Registry

namespace SharedRegistry

/-- The registry before anything has used it. -/
def unused : SharedRegistry := { started := false, registry := ⟨[]⟩ }

/-- Registers the built-in backends, once. -/
def start (shared : SharedRegistry) : SharedRegistry :=
  if shared.started then shared
  else { started := true, registry := Backend.builtin.foldl Registry.register shared.registry }

/-- The registry on which the next call works. -/
def ready (shared : SharedRegistry) : Registry := shared.start.registry

/-- Adds a backend at the end. -/
def register (shared : SharedRegistry) (backend : Backend) : SharedRegistry :=
  { shared.start with registry := shared.ready.register backend }

/-- What is read off the registry, and the registry that reading leaves. -/
def look {α : Type} (shared : SharedRegistry) (read : Registry → α) : α × SharedRegistry :=
  (read shared.ready, shared.start)

/-- The first backend of a name. -/
def find? (shared : SharedRegistry) (name : String) : Option Backend × SharedRegistry :=
  shared.look fun registry => registry.find? name

/-- The backends of a category, in order. -/
def ofCategory (shared : SharedRegistry) (category : Category) : List Backend × SharedRegistry :=
  shared.look fun registry => registry.ofCategory category

/-- All backends, in order. -/
def list (shared : SharedRegistry) : List Backend × SharedRegistry := shared.look Registry.backends

/-- The names of all backends, in order. -/
def names (shared : SharedRegistry) : List String × SharedRegistry := shared.look Registry.names

end SharedRegistry

/-! ## Calls -/

/-- A use of the shared registry. -/
inductive RegistryCall where
  | register (backend : Backend)
  | find (name : String)
  | ofCategory (category : Category)
  | list
  | names

namespace RegistryCall

/-- The registry that a call leaves. -/
def perform (shared : SharedRegistry) : RegistryCall → SharedRegistry
  | register backend    => shared.register backend
  | find name           => (shared.find? name).2
  | ofCategory category => (shared.ofCategory category).2
  | list                => shared.list.2
  | names               => shared.names.2

/-- The backend that a call registers. -/
def registered? : RegistryCall → Option Backend
  | register backend => some backend
  | _                => none

end RegistryCall

/-- The registry after calls, one after the other. -/
def SharedRegistry.after (shared : SharedRegistry) (calls : List RegistryCall) : SharedRegistry :=
  calls.foldl RegistryCall.perform shared

/-- The backends that calls register, in order. -/
def registered (calls : List RegistryCall) : List Backend := calls.filterMap RegistryCall.registered?

end SchemaForge
