import SchemaForge.Document.Yaml.Character

/-!
# `SchemaForge.Document.Yaml.Folding` — text over several lines

A scalar with quotes of either kind, or with none, may go over several lines. The spaces around a
line end are dropped. A single line feed becomes a blank; of several the first is dropped. The
separators of lines and paragraphs are kept.

## Contents
- **Pieces.** `Piece`, a character of a scalar by its part in folding.
- **Folding.** `fold`, the text that pieces stand for.
-/

namespace SchemaForge.Document.Yaml

/-! ## Pieces -/

/-- A character of a scalar by its part in folding. -/
inductive Piece where
  /-- A character that stays. -/
  | char (c : Char)
  /-- A space, which is dropped next to a line end. -/
  | space (c : Char)
  /-- A line end: a line feed or a separator. -/
  | lineEnd (c : Char)
  /-- A line end that is escaped and leaves nothing. -/
  | escapedEnd
deriving DecidableEq

namespace Piece

/-- Whether a piece is dropped at the end of a scalar without quotes. -/
def isBlank : Piece → Bool
  | space _   => true
  | lineEnd _ => true
  | _         => false

end Piece

/-! ## Folding -/

/-- The line ends since the last character that stays: the first, unless it is escaped, and the
    others. -/
structure Gap where
  first : Option Char
  others : List Char := []

/-- What a gap leaves. -/
def Gap.text (gap : Gap) : List Char :=
  match gap.first with
  | none      => gap.others
  | some '\n' => if gap.others.isEmpty then [' '] else gap.others
  | some c    => c :: gap.others

/-- Whether nothing but spaces comes before the next line end. -/
def endsLine : List Piece → Bool
  | .space _ :: rest   => endsLine rest
  | .lineEnd _ :: _    => true
  | _                  => false

/-- The text of pieces within a line or after a gap. -/
def foldFrom : Option Gap → List Piece → List Char
  | none,     []                  => []
  | some gap, []                  => gap.text
  | none,     .char c :: rest     => c :: foldFrom none rest
  | some gap, .char c :: rest     => gap.text ++ c :: foldFrom none rest
  | none,     .space c :: rest    =>
    if endsLine rest then foldFrom none rest else c :: foldFrom none rest
  | some gap, .space _ :: rest    => foldFrom (some gap) rest
  | none,     .lineEnd c :: rest  => foldFrom (some ⟨some c, []⟩) rest
  | some gap, .lineEnd c :: rest  => foldFrom (some ⟨gap.first, gap.others ++ [c]⟩) rest
  | none,     .escapedEnd :: rest => foldFrom (some ⟨none, []⟩) rest
  | some gap, .escapedEnd :: rest => gap.text ++ foldFrom (some ⟨none, []⟩) rest

/-- The text that pieces stand for. -/
def fold (pieces : List Piece) : String := String.ofList (foldFrom none pieces)

end SchemaForge.Document.Yaml
