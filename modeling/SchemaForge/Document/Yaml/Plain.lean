import SchemaForge.Document.Yaml.Quoted

/-!
# `SchemaForge.Document.Yaml.Plain` — scalars without quotes

A scalar without quotes ends before a colon with a space, a comment, a mark between documents, or a
line that is indented too little. Between brackets and braces it also ends before any of them and
before a comma, and indentation is free.
-/

namespace SchemaForge.Document.Yaml

/-- Where a scalar without quotes stands. -/
structure PlainContext where
  /-- Whether it stands between brackets or braces. -/
  isInside : Bool
  /-- The least column of a further line. -/
  indent : Nat

/-- How far a scalar without quotes has come. -/
structure PlainPlace where
  column : Nat
  /-- Whether a space or a line end comes right before. -/
  isFresh : Bool := false
  /-- Whether a line end comes before, with nothing but spaces after it. -/
  isBroken : Bool := false

/-- What ends a scalar without quotes. -/
structure PlainRest where
  pieces : List Piece
  /-- Whether it ends on another line than its last character. -/
  isBroken : Bool
  after : List Char

/-- Puts a piece before the pieces of a rest. -/
def PlainRest.add (piece : Piece) (rest : PlainRest) : PlainRest :=
  { rest with pieces := piece :: rest.pieces }

namespace PlainContext

/-- Whether a scalar ends before a word that starts here. -/
def endsAtWord (context : PlainContext) (place : PlainPlace) (text : List Char) : Bool :=
  text.head? == some '#' || (place.column == 0 && startsMarker text)
    || (place.isBroken && !context.isInside && place.column < context.indent)

/-- Whether a scalar ends before a character and what follows it. -/
def endsAtChar (context : PlainContext) (c : Char) (rest : List Char) : Bool :=
  (c == ':' && endsWord rest) || (context.isInside && [',', '[', ']', '\x7b', '\x7d'].contains c)

/-- Whether a colon is followed by a mark that may not come right after it. -/
def isClash (context : PlainContext) (c : Char) (rest : List Char) : Bool :=
  context.isInside && c == ':' &&
    (rest.head?.map fun d => [',', '?', '[', ']', '\x7b', '\x7d'].contains d).getD false

/-- The pieces of a scalar from a place on, with the spaces and line ends after it. -/
def rest? (context : PlainContext) (place : PlainPlace) : List Char → Option PlainRest
  | []                   => some ⟨[], place.isBroken, []⟩
  | '\r' :: '\n' :: rest => (context.rest? ⟨0, true, true⟩ rest).map (.add (.lineEnd '\n'))
  | c :: rest            =>
    if isBreak c then (context.rest? ⟨0, true, true⟩ rest).map (.add (pieceOf c))
    else if isSpace c then
      if place.isBroken && c == '\t' && place.column < context.indent then none
      else
        (context.rest? ⟨place.column + 1, true, place.isBroken⟩ rest).map (.add (.space c))
    else if place.isFresh && context.endsAtWord place (c :: rest) then
      some ⟨[], place.isBroken, c :: rest⟩
    else if context.isClash c rest then none
    else if context.endsAtChar c rest then some ⟨[], place.isBroken, c :: rest⟩
    else (context.rest? ⟨place.column + 1, false, false⟩ rest).map (.add (.char c))

/-- The text of a scalar that starts at a column, whether it ends on another line, and what follows
    the spaces and line ends after it. -/
def text? (context : PlainContext) (column : Nat) (text : List Char) :
    Option (String × Bool × List Char) :=
  (context.rest? ⟨column, false, false⟩ text).map fun rest =>
    (fold (rest.pieces.reverse.dropWhile Piece.isBlank).reverse, rest.isBroken, rest.after)

end PlainContext

end SchemaForge.Document.Yaml
