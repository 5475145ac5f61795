import SchemaForge.Field

/-!
# `SchemaForge.Schema` — a named, ordered list of fields

The order of the fields is the order in which they are emitted. Names may repeat; an operation that
names a field means the first one of that name.

## Contents
- **Editing.** `add`, `remove?`, `move`, `setKind`, `describe` and `clear`, each giving the schema
  afterwards.
- **Looking up.** `field?`, the first field of a name.
-/

namespace SchemaForge

/-- A named, ordered list of fields. -/
structure Schema where
  name : String
  description : Option String := none
  fields : List Field := []
deriving Inhabited

/-! ## Taking out and moving an element of a list -/

/-- The first element that passes a test, and the other elements in their order. -/
def takeFirst? {α : Type} (test : α → Bool) : List α → Option (α × List α)
  | []        => none
  | x :: rest =>
    if test x then some (x, rest)
    else (takeFirst? test rest).map fun (found, others) => (found, x :: others)

/-- Moves the element at `source` so that it ends up at `target`. Places outside the list leave it
    as it is. -/
def moveElement {α : Type} (list : List α) (source target : Nat) : List α :=
  match list[source]? with
  | none         => list
  | some element =>
    if target < list.length then (list.eraseIdx source).insertIdx target element else list

namespace Schema

/-- The description, if there is one. -/
def doc (schema : Schema) : Option String := nonempty? schema.description

/-- The first field of a name. -/
def field? (schema : Schema) (name : String) : Option Field :=
  schema.fields.find? fun field => field.name == name

/-! ## Editing -/

/-- Appends a field. -/
def add (schema : Schema) (field : Field) : Schema :=
  { schema with fields := schema.fields ++ [field] }

/-- Takes out the first field of a name, if there is one. -/
def remove? (schema : Schema) (name : String) : Option (Field × Schema) :=
  (takeFirst? (fun field => field.name == name) schema.fields).map fun (field, others) =>
    (field, { schema with fields := others })

/-- Moves the field at `source` so that it ends up at `target`. Places outside the schema leave it
    as it is. -/
def move (schema : Schema) (source target : Nat) : Schema :=
  { schema with fields := moveElement schema.fields source target }

/-- Changes the kind of the field at a place. -/
def setKind (schema : Schema) (place : Nat) (kind : Kind) : Schema :=
  { schema with fields := schema.fields.modify place fun field => field.setKind kind }

/-- Sets the description. -/
def describe (schema : Schema) (text : String) : Schema :=
  { schema with description := some text }

/-- Removes every field. -/
def clear (schema : Schema) : Schema := { schema with fields := [] }

end Schema

end SchemaForge
