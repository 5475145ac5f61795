/-!
# `SchemaForge.Document.Yaml.Character` — the characters of a YAML text

YAML knows five characters that end a line, two spaces within a line, and the characters that a text
may hold at all. A carriage return with a line feed ends one line.

## Contents
- **Classes.** `isBreak`, `isSpace`, `isAllowed` and `isPrintable`.
- **Places.** `endsWord` and `startsMarker` say what stands at the front of a text.
-/

namespace SchemaForge.Document.Yaml

/-! ## Classes -/

/-- Whether a character ends a line. -/
def isBreak (c : Char) : Bool :=
  c == '\n' || c == '\r' || c == '\u0085' || c == '\u2028' || c == '\u2029'

/-- The line end that a character stands for: the separators of lines and paragraphs stay as they
    are, the others are line feeds. -/
def lineEndOf (c : Char) : Char := if c = '\u2028' ∨ c = '\u2029' then c else '\n'

/-- Whether a character is a space within a line. -/
def isSpace (c : Char) : Bool := c == ' ' || c == '\t'

/-- Whether a character can be written as it is: line feeds, and all that is neither a control
    character nor a byte order mark nor reserved. -/
def isPrintable (c : Char) : Bool :=
  let point := c.toNat
  c == '\n' || (0x20 ≤ point && point ≤ 0x7E) || (0xA0 ≤ point && point ≤ 0xFFFD && point != 0xFEFF)
    || 0x10000 ≤ point

/-- Whether a YAML text may hold a character. -/
def isAllowed (c : Char) : Bool :=
  isPrintable c || c == '\t' || c == '\r' || c == '\u0085' || c == '\ufeff'

/-- Whether a character may stand in the name of an anchor. -/
def isNameChar (c : Char) : Bool :=
  ('a' ≤ c && c ≤ 'z') || ('A' ≤ c && c ≤ 'Z') || ('0' ≤ c && c ≤ '9') || c == '_' || c == '-'

/-! ## Places -/

/-- Whether a space, a line end or the end of the text stands at the front. -/
def endsWord : List Char → Bool
  | []     => true
  | c :: _ => isSpace c || isBreak c

/-- Whether the mark between documents, or the one after a document, stands at the front. -/
def startsMarker : List Char → Bool
  | '-' :: '-' :: '-' :: rest => endsWord rest
  | '.' :: '.' :: '.' :: rest => endsWord rest
  | _                         => false

/-- What follows the line end at the front of a text, or the text itself. -/
def dropBreak : List Char → List Char
  | '\r' :: '\n' :: rest => rest
  | c :: rest            => if isBreak c then rest else c :: rest
  | []                   => []

end SchemaForge.Document.Yaml
