import SchemaForge.Document.Yaml.Folding
import SchemaForge.Text.Digits

/-!
# `SchemaForge.Document.Yaml.Quoted` — scalars in quotes

In single quotes only the quote itself is special, and is written twice. In double quotes a
backslash starts an escape. No line of either may look like a mark between documents.
-/

namespace SchemaForge.Document.Yaml

/-- Puts a piece before the pieces of a rest. -/
def addPiece (piece : Piece) : Option (List Piece × List Char) → Option (List Piece × List Char)
  | some (pieces, after) => some (piece :: pieces, after)
  | none                 => none

/-- The piece of a character that is not special. -/
def pieceOf (c : Char) : Piece :=
  if isBreak c then .lineEnd (lineEndOf c) else if isSpace c then .space c else .char c

/-! ## Single quotes -/

/-- The pieces up to a closing single quote, and what follows it. `lineStart` says whether a line
    starts here. -/
def singlePieces? (lineStart : Bool) : List Char → Option (List Piece × List Char)
  | []                   => none
  | '\'' :: '\'' :: rest => addPiece (.char '\'') (singlePieces? false rest)
  | '\'' :: rest         => some ([], rest)
  | '\r' :: '\n' :: rest => addPiece (.lineEnd '\n') (singlePieces? true rest)
  | c :: rest            =>
    if lineStart && startsMarker (c :: rest) then none
    else addPiece (pieceOf c) (singlePieces? (isBreak c) rest)

/-! ## Double quotes -/

/-- The character that a letter stands for after a backslash. -/
def escapedChar? : Char → Option Char
  | '0'  => some '\x00'
  | 'a'  => some '\x07'
  | 'b'  => some '\x08'
  | 't'  => some '\t'
  | '\t' => some '\t'
  | 'n'  => some '\n'
  | 'v'  => some '\x0b'
  | 'f'  => some '\x0c'
  | 'r'  => some '\r'
  | 'e'  => some '\x1b'
  | ' '  => some ' '
  | '"'  => some '"'
  | '/'  => some '/'
  | '\\' => some '\\'
  | 'N'  => some '\u0085'
  | '_'  => some '\u00a0'
  | 'L'  => some '\u2028'
  | 'P'  => some '\u2029'
  | _    => none

/-- How many hexadecimal digits follow a letter after a backslash. -/
def escapeWidth? : Char → Option Nat
  | 'x' => some 2
  | 'u' => some 4
  | 'U' => some 8
  | _   => none

/-- The character of a code point, which is none of the surrogates. -/
def charOfPoint? (point : Nat) : Option Char :=
  if h : point.isValidChar then some (Char.ofNatAux point h) else none

/-- The character of the escape after a backslash, and what follows it. -/
def escape? : List Char → Option (Char × List Char)
  | []        => none
  | c :: rest =>
    match escapeWidth? c with
    | none       => (escapedChar? c).map fun escaped => (escaped, rest)
    | some width => do
      let escaped ← charOfPoint? (← Digits.read? 16 (rest.take width))
      if rest.length < width then none else some (escaped, rest.drop width)

/-- The pieces up to a closing double quote, and what follows it, for a text of at most `length`
    characters. `lineStart` says whether a line starts here. -/
def doublePieces? (lineStart : Bool) : Nat → List Char → Option (List Piece × List Char)
  | 0,          _    => none
  | length + 1, text =>
    match text with
    | []                   => none
    | '"' :: rest          => some ([], rest)
    | '\\' :: c :: rest    =>
      if isBreak c then addPiece .escapedEnd (doublePieces? true length (dropBreak (c :: rest)))
      else
        match escape? (c :: rest) with
        | some (escaped, after) => addPiece (.char escaped) (doublePieces? false length after)
        | none                  => none
    | '\r' :: '\n' :: rest => addPiece (.lineEnd '\n') (doublePieces? true length rest)
    | c :: rest            =>
      if lineStart && startsMarker (c :: rest) then none
      else if c = '\\' then none
      else addPiece (pieceOf c) (doublePieces? (isBreak c) length rest)

/-! ## Texts -/

/-- The text of a scalar in single quotes, after the opening one, and what follows. -/
def singleText? (text : List Char) : Option (String × List Char) :=
  (singlePieces? false text).map fun (pieces, after) => (fold pieces, after)

/-- The text of a scalar in double quotes, after the opening one, and what follows. -/
def doubleText? (text : List Char) : Option (String × List Char) :=
  (doublePieces? false (text.length + 1) text).map fun (pieces, after) => (fold pieces, after)

end SchemaForge.Document.Yaml
