/-!
# `SchemaForge.Text.Quoted` — string literals between single quotes

A literal is a single quote, the text with a backslash before every backslash and every single
quote, and a single quote. Everything else, line breaks included, stands as it is. `unquote?` reads
a literal off the front of a text, taking the character after a backslash for itself.
-/

namespace SchemaForge.Quoted

/-- The text with a backslash before every backslash and every single quote. -/
def escape : List Char → List Char
  | []        => []
  | c :: rest => if c = '\\' ∨ c = '\'' then '\\' :: c :: escape rest else c :: escape rest

/-- The inside of a literal up to its closing quote, and what follows the quote. -/
def unescape? : List Char → Option (List Char × List Char)
  | []                => none
  | '\'' :: rest      => some ([], rest)
  | '\\' :: c :: rest => (unescape? rest).map fun (text, after) => (c :: text, after)
  | c :: rest         => (unescape? rest).map fun (text, after) => (c :: text, after)

/-- The literal at the front of a text, and what follows it. -/
def unquote? : List Char → Option (List Char × List Char)
  | '\'' :: rest => unescape? rest
  | _            => none

/-- Reading stops at the closing quote and gives back the text that was escaped. -/
theorem unescape?_escape (text rest : List Char) :
    unescape? (escape text ++ '\'' :: rest) = some (text, rest) := by
  induction text with
  | nil => rfl
  | cons c text ih =>
      by_cases h : c = '\\' ∨ c = '\''
      · simp [escape, h, unescape?, ih]
      · have hc : c ≠ '\\' ∧ c ≠ '\'' := by simpa [not_or] using h
        simp [escape, unescape?, ih, hc]

end SchemaForge.Quoted

namespace SchemaForge

/-- A text as a string literal between single quotes. -/
def quote (text : String) : String :=
  String.ofList ('\'' :: Quoted.escape text.toList ++ ['\''])

end SchemaForge
