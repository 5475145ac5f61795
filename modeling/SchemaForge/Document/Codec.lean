import SchemaForge.Document.Node
import SchemaForge.Settings

/-!
# `SchemaForge.Document.Codec` — schemas and settings as trees

A schema is written as a table of its members in a fixed order; an absent member and a flag that is
off are left out. A field holds its kind and its rule record beside its other members, under `type`
and `validations`. Reading accepts members in any order and passes over unknown ones, except that a
field must be a table.

## Contents
- **Writing.** `Rules.toValue`, `Field.toValue`, `Schema.toValue`, `Settings.toValue`.
- **Words.** Kinds and styles may be a word or a table with the word as its only key.
- **Reading.** `Rules.ofNode?`, `Field.ofNode?`, `Schema.ofNode?`, `Settings.ofNode?`.
-/

namespace SchemaForge

open Document

/-! ## Writing single members -/

/-- The entry of a member that may be absent. -/
def optionalEntry {α : Type} (name : String) (write : α → Value) : Option α → List (String × Value)
  | some value => [(name, write value)]
  | none       => []

/-- The entry of a flag, left out when it is off. -/
def flagEntry (name : String) (isSet : Bool) : List (String × Value) :=
  if isSet then [(name, .bool true)] else []

/-- A count as a value. -/
def countValue (n : UInt32) : Value := .int n.toNat

/-! ## Writing rules -/

def StringRules.entries (rules : StringRules) : List (String × Value) :=
  optionalEntry "min" countValue rules.min
    ++ optionalEntry "max" countValue rules.max
    ++ optionalEntry "length" countValue rules.length
    ++ flagEntry "email" rules.email
    ++ flagEntry "url" rules.url
    ++ flagEntry "uuid" rules.uuid
    ++ flagEntry "cuid" rules.cuid
    ++ optionalEntry "regex" .text rules.regex
    ++ optionalEntry "startsWith" .text rules.startsWith
    ++ optionalEntry "endsWith" .text rules.endsWith
    ++ optionalEntry "includes" .text rules.includes
    ++ flagEntry "trim" rules.trim
    ++ flagEntry "toLowerCase" rules.toLowerCase
    ++ flagEntry "toUpperCase" rules.toUpperCase

def NumberRules.entries (rules : NumberRules) : List (String × Value) :=
  optionalEntry "min" .float rules.min
    ++ optionalEntry "max" .float rules.max
    ++ flagEntry "int" rules.int
    ++ flagEntry "positive" rules.positive
    ++ flagEntry "negative" rules.negative
    ++ flagEntry "nonpositive" rules.nonpositive
    ++ flagEntry "nonnegative" rules.nonnegative
    ++ optionalEntry "multipleOf" .float rules.multipleOf
    ++ flagEntry "finite" rules.finite

def DateRules.entries (rules : DateRules) : List (String × Value) :=
  optionalEntry "min" .text rules.min ++ optionalEntry "max" .text rules.max

def EnumRules.entries (rules : EnumRules) : List (String × Value) :=
  [("values", .list (rules.values.map .text))]

def ArrayRules.entries (rules : ArrayRules) : List (String × Value) :=
  optionalEntry "min" countValue rules.min
    ++ optionalEntry "max" countValue rules.max
    ++ optionalEntry "length" countValue rules.length
    ++ flagEntry "nonempty" rules.nonempty
    ++ [("itemType", .text rules.item.name)]

namespace Rules

/-- The two entries of a rule record: its kind and its members. -/
def entries : Rules → List (String × Value)
  | string rules            => tagged .string rules.entries
  | number rules            => tagged .number rules.entries
  | boolean                 => tagged .boolean []
  | date rules              => tagged .date rules.entries
  | enum rules              => tagged .enum rules.entries
  | array rules none        => tagged .array rules.entries
  | array rules (some item) =>
    tagged .array (rules.entries ++ [("itemValidations", .table item.entries)])
where
  tagged (kind : Kind) (members : List (String × Value)) : List (String × Value) :=
    [("type", .text kind.name), ("validations", .table members)]

/-- A rule record as a table of its kind and its members. -/
def toValue (rules : Rules) : Value := .table rules.entries

end Rules

/-! ## Writing fields, schemas and settings -/

def Field.toValue (field : Field) : Value :=
  .table
    ([("name", .text field.name), ("required", .bool field.required),
        ("nullable", .bool field.nullable)]
      ++ optionalEntry "defaultValue" .text field.defaultValue
      ++ optionalEntry "description" .text field.description
      ++ field.rules.entries)

def Schema.toValue (schema : Schema) : Value :=
  .table
    ([("name", .text schema.name)]
      ++ optionalEntry "description" .text schema.description
      ++ [("fields", .list (schema.fields.map Field.toValue))])

def Settings.toValue (settings : Settings) : Value :=
  .table
    [("typeStyle", .text settings.typeStyle.name),
     ("includeExports", .bool settings.exports),
     ("schemaNameSuffix", .text settings.schemaSuffix),
     ("typeNameSuffix", .text settings.typeSuffix),
     ("includeComments", .bool settings.comments),
     ("semicolons", .bool settings.semicolons)]

/-! ## Words -/

/-- The payload of a word that is written as the only key of a table: nothing, or when buffered also
    a table without entries. -/
def isEmptyPayload (mode : Node.Mode) : Node → Bool
  | .table [] => mode == .buffered
  | node      => node.isNull mode

/-- The kind that a node stands for. -/
def Kind.ofNode? (mode : Node.Mode) : Node → Option Kind
  | .table [(key, payload)] => do
    let name ← Node.keyName? mode (Kind.all.map Kind.name) key
    let kind ← name.bind Kind.ofName?
    if isEmptyPayload mode payload then some kind else none
  | node => (node.text? mode).bind Kind.ofName?

/-- The style that a node stands for. -/
def TypeStyle.ofNode? (mode : Node.Mode) : Node → Option TypeStyle
  | .table [(key, payload)] => do
    let name ← Node.keyName? mode ["infer", "interface", "type"] key
    let style ← name.bind TypeStyle.ofName?
    if isEmptyPayload mode payload then some style else none
  | node => (node.text? mode).bind TypeStyle.ofName?

/-! ## Reading rules -/

def StringRules.memberNames : List String :=
  ["min", "max", "length", "email", "url", "uuid", "cuid", "regex", "startsWith", "endsWith",
   "includes", "trim", "toLowerCase", "toUpperCase"]

def NumberRules.memberNames : List String :=
  ["min", "max", "int", "positive", "negative", "nonpositive", "nonnegative", "multipleOf",
   "finite"]

def DateRules.memberNames : List String := ["min", "max"]

def EnumRules.memberNames : List String := ["values"]

def ArrayRules.memberNames : List String :=
  ["min", "max", "length", "nonempty", "itemType", "itemValidations"]

def Rules.memberNames : List String := ["type", "validations"]

def StringRules.ofMembers? (mode : Node.Mode) (members : Members) : Option StringRules := do
  let text (name : String) : Option (Option String) := members.optional? mode name (Node.text? mode)
  some
    { min := ← members.optional? mode "min" (Node.count? mode)
      max := ← members.optional? mode "max" (Node.count? mode)
      length := ← members.optional? mode "length" (Node.count? mode)
      email := ← members.flag? mode "email"
      url := ← members.flag? mode "url"
      uuid := ← members.flag? mode "uuid"
      cuid := ← members.flag? mode "cuid"
      regex := ← text "regex"
      startsWith := ← text "startsWith"
      endsWith := ← text "endsWith"
      includes := ← text "includes"
      trim := ← members.flag? mode "trim"
      toLowerCase := ← members.flag? mode "toLowerCase"
      toUpperCase := ← members.flag? mode "toUpperCase" }

def NumberRules.ofMembers? (mode : Node.Mode) (members : Members) : Option NumberRules := do
  some
    { min := ← members.optional? mode "min" (Node.number? mode)
      max := ← members.optional? mode "max" (Node.number? mode)
      int := ← members.flag? mode "int"
      positive := ← members.flag? mode "positive"
      negative := ← members.flag? mode "negative"
      nonpositive := ← members.flag? mode "nonpositive"
      nonnegative := ← members.flag? mode "nonnegative"
      multipleOf := ← members.optional? mode "multipleOf" (Node.number? mode)
      finite := ← members.flag? mode "finite" }

def DateRules.ofMembers? (mode : Node.Mode) (members : Members) : Option DateRules := do
  some
    { min := ← members.optional? mode "min" (Node.text? mode)
      max := ← members.optional? mode "max" (Node.text? mode) }

def EnumRules.ofMembers? (mode : Node.Mode) (members : Members) : Option EnumRules := do
  some { values := ← members.withDefault? "values" [] (Node.items? (Node.text? mode)) }

def ArrayRules.ofMembers? (mode : Node.Mode) (members : Members) : Option ArrayRules := do
  some
    { min := ← members.optional? mode "min" (Node.count? mode)
      max := ← members.optional? mode "max" (Node.count? mode)
      length := ← members.optional? mode "length" (Node.count? mode)
      nonempty := ← members.flag? mode "nonempty"
      item := ← members.withDefault? "itemType" .string (Kind.ofNode? mode) }

namespace Rules

/-- The rules of a kind from the node of their record. `readItem` reads the rules of the elements of
    a collection. -/
def ofRecord? (mode : Node.Mode) (readItem : Node → Option Rules) (kind : Kind) (record : Node) :
    Option Rules :=
  match kind with
  | .string  => do
    let members ← record.members? mode StringRules.memberNames
    some (.string (← StringRules.ofMembers? mode members))
  | .number  => do
    let members ← record.members? mode NumberRules.memberNames
    some (.number (← NumberRules.ofMembers? mode members))
  | .boolean => do
    let _ ← record.members? mode []
    some .boolean
  | .date    => do
    let members ← record.members? mode DateRules.memberNames
    some (.date (← DateRules.ofMembers? mode members))
  | .enum    => do
    let members ← record.members? mode EnumRules.memberNames
    some (.enum (← EnumRules.ofMembers? mode members))
  | .array   => do
    let members ← record.members? mode ArrayRules.memberNames
    some (.array (← ArrayRules.ofMembers? mode members)
      (← members.optional? mode "itemValidations" readItem))

/-- The rules that a node stands for, with at most `depth` levels of element rules. -/
def ofNodeWithin? (mode : Node.Mode) : Nat → Node → Option Rules
  | 0,         _    => none
  | depth + 1, node => do
    let members ← node.members? mode memberNames
    let kind ← members.required? "type" (Kind.ofNode? mode)
    members.required? "validations" (ofRecord? mode (ofNodeWithin? mode depth) kind)

/-- The rules that a node stands for. -/
def ofNode? (mode : Node.Mode) (node : Node) : Option Rules :=
  ofNodeWithin? mode (node.height + 1) node

end Rules

/-! ## Reading fields, schemas and settings -/

/-- The members of a field that are read straight from the document. -/
def Field.directNames : List String :=
  ["name", "required", "nullable", "defaultValue", "description"]

/-- Whether the entries that are held back until the rules are read all have a meaning. -/
def Field.restReadable (entries : List (Node × Node)) : Bool :=
  entries.all fun (key, value) =>
    match key.text? .direct with
    | some name => directNames.contains name || value.isReadable
    | none      => false

/-- The field that a node stands for. Its kind and its rules are read after everything but the
    members named in `directNames` has been given its meaning. -/
def Field.ofNode? : Node → Option Field
  | .table entries => do
    let members ←
      Node.namedMembers? .direct (Field.directNames ++ Rules.memberNames) entries
    let kind ← members.required? "type" (Kind.ofNode? .buffered)
    if !Field.restReadable entries then none
    else
      some
        { name := ← members.required? "name" (Node.text? .direct)
          required := ← members.required? "required" (Node.bool? .direct)
          nullable := ← members.required? "nullable" (Node.bool? .direct)
          defaultValue := ← members.optional? .direct "defaultValue" (Node.text? .direct)
          description := ← members.optional? .direct "description" (Node.text? .direct)
          rules := ← members.required? "validations"
            (Rules.ofRecord? .buffered (Rules.ofNode? .buffered) kind) }
  | _ => none

/-- The fields that a node stands for; a place left empty has none. -/
def Schema.fieldsOfNode? : Node → Option (List Field)
  | .written "" .null _ => some []
  | node                => node.items? Field.ofNode?

/-- The schema that a node stands for. -/
def Schema.ofNode? (node : Node) : Option Schema := do
  let members ← node.members? .direct ["name", "description", "fields"]
  some
    { name := ← members.required? "name" (Node.text? .direct)
      description := ← members.optional? .direct "description" (Node.text? .direct)
      fields := ← members.withDefault? "fields" [] Schema.fieldsOfNode? }

/-- The settings that a node stands for; a missing member has its usual value. -/
def Settings.ofNode? (node : Node) : Option Settings := do
  let usual : Settings := {}
  let members ← node.members? .direct
    ["typeStyle", "includeExports", "schemaNameSuffix", "typeNameSuffix", "includeComments",
     "semicolons"]
  some
    { typeStyle := ← members.withDefault? "typeStyle" usual.typeStyle (TypeStyle.ofNode? .direct)
      exports := ← members.withDefault? "includeExports" usual.exports (Node.bool? .direct)
      schemaSuffix := ← members.withDefault? "schemaNameSuffix" usual.schemaSuffix
        (Node.text? .direct)
      typeSuffix := ← members.withDefault? "typeNameSuffix" usual.typeSuffix (Node.text? .direct)
      comments := ← members.withDefault? "includeComments" usual.comments (Node.bool? .direct)
      semicolons := ← members.withDefault? "semicolons" usual.semicolons (Node.bool? .direct) }

end SchemaForge
