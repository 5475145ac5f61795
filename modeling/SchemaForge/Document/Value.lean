import SchemaForge.Number.Binary64

/-!
# `SchemaForge.Document.Value` — what a document says

A document is a tree of scalars, lists and tables. A table keeps its entries in order. Every format
writes such a tree, and no format's spelling is part of it.
-/

namespace SchemaForge.Document

/-- A tree of data. -/
inductive Value where
  | null
  | bool (value : Bool)
  | int (value : Int)
  | float (value : Binary64)
  | text (value : String)
  | list (items : List Value)
  | table (entries : List (String × Value))

namespace Value

instance : Inhabited Value := ⟨null⟩

/-! ## Tables in sorted order -/

/-- Puts an entry into a sorted list of entries, before the first larger key. -/
def insertEntry (entry : String × Value) : List (String × Value) → List (String × Value)
  | []            => [entry]
  | other :: rest =>
    if entry.1 < other.1 then entry :: other :: rest else other :: insertEntry entry rest

mutual

/-- The same tree with the entries of every table sorted by key. -/
def sortKeys : Value → Value
  | list items    => list (sortItems items)
  | table entries => table (sortEntries entries)
  | value         => value

def sortItems : List Value → List Value
  | []            => []
  | item :: items => item.sortKeys :: sortItems items

def sortEntries : List (String × Value) → List (String × Value)
  | []                      => []
  | (key, value) :: entries => insertEntry (key, value.sortKeys) (sortEntries entries)

end

end Value

end SchemaForge.Document
