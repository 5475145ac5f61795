import SchemaForge.Document.Value
import SchemaForge.Number.Width

/-!
# `SchemaForge.Document.Node` — a document as it was read

A node is a value together with what a reader may still have to decide: a written scalar keeps its
characters, because a member that holds text takes them as they are; a scalar may be unreadable,
which is an error only where it is used; and the key of a table may be any node.

## Contents
- **Scalars and nodes.** `Scalar`, `Node`, and `Node.ofValue`, the node of a value.
- **Reading modes.** A record is read `direct` from the document, or `buffered`: after everything in
  it has been given its meaning.
- **Members.** `Node.members?`, the known members of a record by name.
-/

namespace SchemaForge.Document

/-! ## Scalars and nodes -/

/-- A scalar with its meaning. -/
inductive Scalar where
  | null
  | bool (value : Bool)
  | int (value : Int)
  | float (value : Binary64)
  | text (value : String)
  /-- Well formed, but without a meaning that can be held. -/
  | unreadable
deriving DecidableEq

/-- A part of a document as it was read. -/
inductive Node where
  | scalar (value : Scalar)
  /-- A scalar whose characters count too: its characters, its meaning where it is read straight
      from the document, and its meaning after everything has been given one. -/
  | written (raw : String) (direct buffered : Scalar)
  | list (items : List Node)
  | table (entries : List (Node × Node))

/-- The members of a record by name. -/
abbrev Members := List (String × Node)

namespace Node

instance : Inhabited Node := ⟨scalar .null⟩

mutual

/-- The node of a value. -/
def ofValue : Value → Node
  | .null          => scalar .null
  | .bool value    => scalar (.bool value)
  | .int value     => scalar (.int value)
  | .float value   => scalar (.float value)
  | .text value    => scalar (.text value)
  | .list items    => list (ofItems items)
  | .table entries => table (ofEntries entries)

def ofItems : List Value → List Node
  | []            => []
  | item :: items => ofValue item :: ofItems items

def ofEntries : List (String × Value) → List (Node × Node)
  | []                      => []
  | (key, value) :: entries => (scalar (.text key), ofValue value) :: ofEntries entries

end

mutual

/-- Whether every scalar of the node has a meaning. -/
def isReadable : Node → Bool
  | scalar value       => value != .unreadable
  | written _ _ value  => value != .unreadable
  | list items         => itemsReadable items
  | table entries      => entriesReadable entries

def itemsReadable : List Node → Bool
  | []            => true
  | item :: items => item.isReadable && itemsReadable items

def entriesReadable : List (Node × Node) → Bool
  | []                      => true
  | (key, value) :: entries => key.isReadable && value.isReadable && entriesReadable entries

end

mutual

/-- How deeply lists and tables are nested. -/
def height : Node → Nat
  | scalar _      => 0
  | written _ _ _ => 0
  | list items    => itemsHeight items + 1
  | table entries => entriesHeight entries + 1

def itemsHeight : List Node → Nat
  | []            => 0
  | item :: items => max item.height (itemsHeight items)

def entriesHeight : List (Node × Node) → Nat
  | []                      => 0
  | (key, value) :: entries => max (max key.height value.height) (entriesHeight entries)

end

/-! ## Reading modes -/

/-- Whether a record is read straight from the document, or after everything in it has been given
    its meaning. -/
inductive Mode where
  | direct
  | buffered
deriving DecidableEq

/-- The meaning of a scalar. -/
def meaning? (mode : Mode) : Node → Option Scalar
  | scalar value              => some value
  | written _ direct buffered =>
    match mode with
    | .direct   => some direct
    | .buffered => some buffered
  | _                         => none

/-- The text of a node that is read as text. Read directly, a written scalar is its characters. -/
def text? (mode : Mode) (node : Node) : Option String :=
  match mode, node with
  | .direct, written raw _ _ => some raw
  | _, _                     =>
    match node.meaning? mode with
    | some (.text value) => some value
    | _                  => none

def bool? (mode : Mode) (node : Node) : Option Bool :=
  match node.meaning? mode with
  | some (.bool value) => some value
  | _                  => none

/-- The number of a node that is read as a number; an integer counts as one. -/
def number? (mode : Mode) (node : Node) : Option Binary64 :=
  match node.meaning? mode with
  | some (.float value) => some value
  | some (.int value)   => some (.ofInt value)
  | _                   => none

/-- An integer as a count below `2 ^ 32`. -/
def countOfInt? (value : Int) : Option UInt32 :=
  if Width.holdsUnsigned 32 value then some (UInt32.ofNat value.toNat) else none

/-- The count of a node that is read as one. -/
def count? (mode : Mode) (node : Node) : Option UInt32 :=
  match node.meaning? mode with
  | some (.int value) => countOfInt? value
  | _                 => none

/-- Whether a node says that a member is absent. -/
def isNull (mode : Mode) (node : Node) : Bool := node.meaning? mode == some .null

/-- Reads a member that null leaves absent. -/
def optional? {α : Type} (mode : Mode) (read : Node → Option α) (node : Node) :
    Option (Option α) :=
  if node.isNull mode then some none else (read node).map some

/-- Reads every item of a list. -/
def items? {α : Type} (read : Node → Option α) : Node → Option (List α)
  | list items => items.mapM read
  | _          => none

/-! ## Members of a record -/

/-- Which member of a record a key means: a name, or when buffered also a place among the names.
    Other keys mean no member; a key that can be neither is refused. -/
def keyName? (mode : Mode) (names : List String) (key : Node) : Option (Option String) :=
  match key.text? mode, mode, key.meaning? mode with
  | some name, _, _                    => some (if names.contains name then some name else none)
  | none, .buffered, some (.int place) => if place < 0 then none else some names[place.toNat]?
  | _, _, _                            => none

/-- The members of a record that its entries give, each at most once. -/
def namedMembers? (mode : Mode) (names : List String) :
    List (Node × Node) → Option Members
  | []                      => some []
  | (key, value) :: entries => do
    let member ← keyName? mode names key
    let others ← namedMembers? mode names entries
    match member with
    | none      => some others
    | some name => if (others.lookup name).isSome then none else some ((name, value) :: others)

/-- The known members of a record by name. A record is a table, whose unknown keys are passed over,
    or a list of its first members in order. -/
def members? (mode : Mode) (names : List String) : Node → Option Members
  | table entries => namedMembers? mode names entries
  | list items    => if items.length ≤ names.length then some (names.zip items) else none
  | _             => none

end Node

/-! ## Reading single members -/

namespace Members

/-- A member that must be there. -/
def required? {α : Type} (members : Members) (name : String) (read : Node → Option α) : Option α :=
  (members.lookup name).bind read

/-- A member with a value for when it is missing. -/
def withDefault? {α : Type} (members : Members) (name : String) (default : α)
    (read : Node → Option α) : Option α :=
  match members.lookup name with
  | some node => read node
  | none      => some default

/-- A member that may be missing or null. -/
def optional? {α : Type} (members : Members) (mode : Node.Mode) (name : String)
    (read : Node → Option α) : Option (Option α) :=
  members.withDefault? name none (Node.optional? mode read)

/-- A flag, off when it is missing. -/
def flag? (members : Members) (mode : Node.Mode) (name : String) : Option Bool :=
  members.withDefault? name false (Node.bool? mode)

end Members

end SchemaForge.Document
