/-!
# `SchemaForge.Text.Blank` — white space, trimming and splitting

White space is every character with the property of that name: the blank, the ASCII controls from
tab to carriage return, and the separators and spaces of other scripts. Texts are lists of
characters here.

## Contents
- **White space.** `isBlank`, `trimStart`, `trimEnd` and `trim`.
- **Splitting.** `split` at a character.
-/

namespace SchemaForge.Text

/-! ## White space -/

/-- Whether a character is white space. -/
def isBlank (c : Char) : Bool :=
  let point := c.toNat
  (0x9 ≤ point && point ≤ 0xD) || point == 0x20 || point == 0x85 || point == 0xA0
    || point == 0x1680 || (0x2000 ≤ point && point ≤ 0x200A) || point == 0x2028 || point == 0x2029
    || point == 0x202F || point == 0x205F || point == 0x3000

/-- The text without the white space at its start. -/
def trimStart (text : List Char) : List Char := text.dropWhile isBlank

/-- The text without the white space at its end. -/
def trimEnd (text : List Char) : List Char := (text.reverse.dropWhile isBlank).reverse

/-- The text without the white space at either end. -/
def trim (text : List Char) : List Char := trimEnd (trimStart text)

/-! ## Splitting -/

/-- The pieces of a text between the places where a character stands, one more than there are such
    places. -/
def split (separator : Char) : List Char → List (List Char)
  | []        => [[]]
  | c :: rest =>
    if c = separator then [] :: split separator rest
    else
      match split separator rest with
      | []              => [[c]]
      | piece :: pieces => (c :: piece) :: pieces

end SchemaForge.Text
