import SchemaForge.Document.Toml.Line

/-!
# `SchemaForge.Document.Toml.Reader` — reading a TOML text

The lines of a document build its tables one after the other. Entries go into the table that the
last header opened.
-/

namespace SchemaForge.Document.Toml

/-- The table built so far, and the path to the one that entries go into. -/
structure Build where
  root : Table := { origin := .header }
  current : List String := []

namespace Build

/-- What a line adds. -/
def step? (build : Build) : Line → Option Build
  | .blank              => some build
  | .table path key     =>
    (build.root.open? path key).map fun root => ⟨root, path ++ [key]⟩
  | .element path key   =>
    (build.root.append? path key).map fun root => ⟨root, path ++ [key]⟩
  | .entry path key node =>
    (build.root.within? build.current (Table.insert? path key node)).map fun root =>
      { build with root := root }

end Build

/-- A text without the byte order mark at its start. -/
def dropMark : List Char → List Char
  | '\ufeff' :: rest => rest
  | text             => text

/-- The node that a TOML text stands for. -/
def read? (text : String) : Option Node := do
  let chars := dropMark text.toList
  let lines ← lines? chars.length chars
  let build ← lines.foldlM Build.step? {}
  some build.root.toNode

end SchemaForge.Document.Toml
