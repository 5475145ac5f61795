import SchemaForge.Document.Yaml.Character
import SchemaForge.Text.Digits

/-!
# `SchemaForge.Document.Yaml.Block` — scalars of indented lines

A bar starts a scalar whose lines are kept, a greater sign one whose lines are joined by blanks. The
lines are those with at least the margin of the first one, or the margin that a digit after the mark
says. A plus keeps the empty lines at the end, and a minus drops the last line end too.

## Contents
- **Headers.** `BlockHeader`, what stands after the mark.
- **Lines.** `BlockLine`, and `blockLines?`, which splits them off.
- **Texts.** `keptText`, `joinedText` and `blockText?`.
-/

namespace SchemaForge.Document.Yaml

/-! ## Headers -/

/-- What happens to the line ends at the end of a block. -/
inductive Chomp where
  | strip
  | clip
  | keep
deriving DecidableEq

/-- What stands after the mark of a block. -/
structure BlockHeader where
  chomp : Chomp := .clip
  /-- The margin beyond the surrounding level. -/
  margin : Option Nat := none

/-- What a sign says of the line ends at the end. -/
def chompOf? : Char → Option Chomp
  | '+' => some .keep
  | '-' => some .strip
  | _   => none

/-- The margin that a digit stands for, or the lack of a digit; zero is refused. -/
def marginDigit? : List Char → Option (Option Nat × List Char)
  | c :: rest =>
    if c = '0' then none
    else if Digits.isDigitOf 10 c then some (Digits.digitValue? c, rest)
    else some (none, c :: rest)
  | []        => some (none, [])

/-- The sign and the digit after a mark, in either order. -/
def headerMarks? (text : List Char) : Option (BlockHeader × List Char) :=
  match text.head?.bind chompOf? with
  | some chomp => (marginDigit? (text.drop 1)).map fun (margin, after) => (⟨chomp, margin⟩, after)
  | none       => do
    let (margin, rest) ← marginDigit? text
    match margin, rest.head?.bind chompOf? with
    | some _, some chomp => some (⟨chomp, margin⟩, rest.drop 1)
    | _, _               => some (⟨.clip, margin⟩, rest)

/-- The header of a block, and what follows its line, which may end in a comment. -/
def header? (text : List Char) : Option (BlockHeader × List Char) := do
  let (header, rest) ← headerMarks? text
  let rest := rest.dropWhile isSpace
  let rest := if rest.head? = some '#' then rest.dropWhile fun c => !isBreak c else rest
  match rest with
  | []     => some (header, [])
  | c :: _ => if isBreak c then some (header, dropBreak rest) else none

/-! ## Lines -/

/-- Empty lines and the start of a line that may hold something. -/
structure Lead where
  /-- The ends of the empty lines. -/
  blanks : List Char
  /-- The column at which the line goes on. -/
  column : Nat
  /-- The greatest number of blanks at the start of a line. -/
  widest : Nat
  after : List Char

/-- The empty lines at the front of a text, and up to `margin` blanks of the line after them; any
    number of blanks if the margin is not known. A tab may not stand in the margin. -/
def lead? (margin : Option Nat) (column widest : Nat) : List Char → Option Lead
  | []                   => some ⟨[], column, max widest column, []⟩
  | '\r' :: '\n' :: rest =>
    (lead? margin 0 (max widest column) rest).map fun lead =>
      { lead with blanks := '\n' :: lead.blanks }
  | c :: rest            =>
    let isMargin := (margin.map fun width => decide (column < width)).getD true
    if isMargin && c == ' ' then lead? margin (column + 1) widest rest
    else if isMargin && c == '\t' then none
    else if isBreak c then
      (lead? margin 0 (max widest column) rest).map fun lead =>
        { lead with blanks := lineEndOf c :: lead.blanks }
    else some ⟨[], column, max widest column, c :: rest⟩

/-- A line of a block, without its margin, and the ends of the line and of the empty lines after
    it. -/
structure BlockLine where
  text : List Char
  ending : List Char
  blanks : List Char

/-- The end of the line at the front of a text, if it has one. -/
def lineEnding : List Char → List Char
  | c :: _ => if isBreak c then [lineEndOf c] else []
  | []     => []

/-- The lines of a block whose first line is at a column, and what follows, for a text of at most
    `length` characters. -/
def blockLines? (margin : Nat) : Nat → Nat → List Char → Option (List BlockLine × List Char)
  | 0,          _,      text => some ([], text)
  | length + 1, column, text =>
    if column ≠ margin ∨ text = [] then some ([], text)
    else do
      let line := text.takeWhile fun c => !isBreak c
      let rest := text.dropWhile fun c => !isBreak c
      let lead ← lead? (some margin) 0 0 (dropBreak rest)
      let (lines, after) ← blockLines? margin length lead.column lead.after
      some (⟨line, lineEnding rest, lead.blanks⟩ :: lines, after)

/-! ## Texts -/

/-- What is left of the line ends after the last line. -/
def chompedEnd (chomp : Chomp) (line : BlockLine) : List Char :=
  match chomp with
  | .strip => []
  | .clip  => line.ending
  | .keep  => line.ending ++ line.blanks

/-- The text of lines that are kept. -/
def keptText (chomp : Chomp) : List BlockLine → List Char
  | []            => []
  | [line]        => line.text ++ chompedEnd chomp line
  | line :: lines => line.text ++ line.ending ++ line.blanks ++ keptText chomp lines

/-- Whether a line starts with a space. -/
def BlockLine.isIndented (line : BlockLine) : Bool := (line.text.head?.map isSpace).getD false

/-- What stands between two lines that are joined: a line feed between lines that do not start with
    a space is dropped, and becomes a blank if no empty line follows. -/
def joint (line next : BlockLine) : List Char :=
  if line.ending = ['\n'] ∧ !line.isIndented ∧ !next.isIndented then
    if line.blanks = [] then [' '] else line.blanks
  else line.ending ++ line.blanks

/-- The text of lines that are joined. -/
def joinedText (chomp : Chomp) : List BlockLine → List Char
  | []                    => []
  | [line]                => line.text ++ chompedEnd chomp line
  | line :: next :: lines => line.text ++ joint line next ++ joinedText chomp (next :: lines)

/-- The text of a block after its mark, and what follows it. `level` is the first column that is
    inside of the surrounding collection. -/
def blockText? (isKept : Bool) (level : Nat) (text : List Char) : Option (String × List Char) := do
  let (header, rest) ← header? text
  let given := header.margin.map fun margin => level - 1 + margin
  let lead ← lead? given 0 0 rest
  let margin := given.getD (max (max lead.widest level) 1)
  let (lines, after) ← blockLines? margin (lead.after.length + 1) lead.column lead.after
  let body := if isKept then keptText header.chomp lines else joinedText header.chomp lines
  let blanks :=
    match lines, header.chomp with
    | [], .keep => lead.blanks
    | [], _     => []
    | _, _      => lead.blanks
  some (String.ofList (blanks ++ body), after)

end SchemaForge.Document.Yaml
