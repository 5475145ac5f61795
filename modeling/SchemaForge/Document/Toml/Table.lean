import SchemaForge.Document.Node

/-!
# `SchemaForge.Document.Toml.Table` — building the tables of a TOML document

Tables are built entry by entry, as headers and dotted keys name them. A table remembers how it came
to be, because that decides who may add to it: a header may complete a table that other headers only
implied, and a dotted key may go on in a table that dotted keys started.

## Contents
- **Tables.** `Table`, `Item`, `Origin`, and `Table.toNode`.
- **Paths.** `Table.alter?` changes the table at the end of a path.
- **Entries.** `Table.insert?`, `Table.open?` and `Table.append?`.
-/

namespace SchemaForge.Document.Toml

/-! ## Tables -/

/-- How a table came to be. -/
inductive Origin where
  /-- By a header of its own, or as the whole document. -/
  | header
  /-- By being on the path of a header. -/
  | implied
  /-- By being on the path of a dotted key. -/
  | dotted
deriving DecidableEq

/-- What stands under a key: a finished value, a table, or an array of tables with the last one
    first. An array of tables holds one table at least. -/
inductive Item where
  | value (node : Node)
  | table (origin : Origin) (entries : List (String × Item))
  | tables (last : List (String × Item)) (earlier : List (List (String × Item)))

/-- A table under construction. -/
structure Table where
  origin : Origin
  entries : List (String × Item) := []

namespace Table

mutual

/-- The node of an item. -/
def itemNode : Item → Node
  | .value node          => node
  | .table _ entries     => .table (entryNodes entries)
  | .tables last earlier => .list (earlierNodes earlier [.table (entryNodes last)])

/-- The nodes of entries. -/
def entryNodes : List (String × Item) → List (Node × Node)
  | []                   => []
  | (key, item) :: entries => (.scalar (.text key), itemNode item) :: entryNodes entries

/-- The nodes of tables that come before others, the last one first. -/
def earlierNodes : List (List (String × Item)) → List Node → List Node
  | [],               after => after
  | entries :: tables, after => earlierNodes tables (.table (entryNodes entries) :: after)

end

/-- The node of a table. -/
def toNode (table : Table) : Node := .table (entryNodes table.entries)

/-- Puts an item under a key, in the place of what is there. -/
def put (entries : List (String × Item)) (key : String) (item : Item) : List (String × Item) :=
  match entries with
  | []              => [(key, item)]
  | other :: others => if other.1 = key then (key, item) :: others else other :: put others key item

/-! ## Paths -/

/-- Changes the table at the end of a path. Tables that are missing on the way come to be by
    `onWay`, and arrays of tables are followed to their last one. A dotted key goes through no table
    that has a header of its own. -/
def alter? (onWay : Origin) (path : List String) (change : Table → Option Table) (table : Table) :
    Option Table :=
  match path with
  | []          => change table
  | key :: path =>
    match table.entries.lookup key with
    | none => do
      let child ← alter? onWay path change ⟨onWay, []⟩
      some { table with entries := put table.entries key (.table child.origin child.entries) }
    | some (.value _) => none
    | some (.table origin entries) =>
      if onWay = .dotted ∧ origin = .header then none
      else do
        let child ← alter? onWay path change ⟨origin, entries⟩
        some { table with entries := put table.entries key (.table child.origin child.entries) }
    | some (.tables last earlier) => do
      let child ← alter? onWay path change ⟨.header, last⟩
      some { table with entries := put table.entries key (.tables child.entries earlier) }

/-! ## Entries -/

/-- Adds an entry at a dotted key: a path of tables, and a key that must be new. The table at the
    end of a path must have come to be by dotted keys. -/
def insert? (path : List String) (key : String) (node : Node) (table : Table) : Option Table :=
  alter? .dotted path
    (fun inner =>
      if path ≠ [] ∧ inner.origin ≠ .dotted ∨ (inner.entries.lookup key).isSome then none
      else some { inner with entries := put inner.entries key (.value node) })
    table

/-- Opens a table by its header. It must be new, or only implied so far. -/
def open? (path : List String) (key : String) (table : Table) : Option Table :=
  alter? .implied path
    (fun inner =>
      match inner.entries.lookup key with
      | none                           =>
        some { inner with entries := put inner.entries key (.table .header []) }
      | some (.table .implied entries) =>
        some { inner with entries := put inner.entries key (.table .header entries) }
      | some _                         => none)
    table

/-- Appends a table to an array of tables by its header. The array may be new. -/
def append? (path : List String) (key : String) (table : Table) : Option Table :=
  alter? .implied path
    (fun inner =>
      match inner.entries.lookup key with
      | none                        =>
        some { inner with entries := put inner.entries key (.tables [] []) }
      | some (.tables last earlier) =>
        some { inner with entries := put inner.entries key (.tables [] (last :: earlier)) }
      | some _                      => none)
    table

/-- Changes the table that a header opened, which the path of the header leads to. -/
def within? (header : List String) (change : Table → Option Table) (table : Table) : Option Table :=
  alter? .implied header change table

end Table

end SchemaForge.Document.Toml
