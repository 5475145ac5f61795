/-!
# `SchemaForge.Text.Comment` — doc comments in emitted code

A description of a schema becomes a block with a star before it; the block may hold further lines,
each with its own star. A description of a member becomes one indented line. The text itself is
emitted as it stands.
-/

namespace SchemaForge.Comment

/-- The lines of a block comment. -/
def block (text : String) (more : List String) : List String :=
  "/**" :: (" * " ++ text) :: more.map (" * " ++ ·) ++ [" */"]

/-- The lines of the block comment of a description that may be absent. -/
def block? (text : Option String) (more : List String) : List String :=
  match text with
  | some text => block text more
  | none      => []

/-- The lines of the comment of a member whose description may be absent. -/
def member? (text : Option String) : List String :=
  match text with
  | some text => ["  /** " ++ text ++ " */"]
  | none      => []

end SchemaForge.Comment
