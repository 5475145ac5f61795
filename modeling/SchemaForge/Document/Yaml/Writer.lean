import SchemaForge.Document.Json.Writer
import SchemaForge.Document.Yaml.Character
import SchemaForge.Document.Yaml.Meaning

/-!
# `SchemaForge.Document.Yaml.Writer` — writing a YAML text

A tree is written in block style, two blanks deeper for each level, with the items of a list under a
key at the level of the key. A text takes the plainest form that reads back: no quotes if it would
be understood as that text, lines under a bar if it holds line feeds, single quotes, and double
quotes with escapes for what no other form can hold.

## Contents
- **Forms of a text.** `Form`, and `formOf`, which chooses one.
- **Texts.** `singleQuoted`, `doubleQuoted` and `literal`.
- **Trees.** `write`.
-/

namespace SchemaForge.Document.Yaml

/-! ## Numbers -/

/-- Doubles are positional from `0.00001` up to sixteen whole digits and always show a point or an
    exponent. -/
def floatStyle : NumberStyle where
  positional point := decide (-5 < point) && decide (point ≤ 16)
  wholeEnd := ".0"
  exponentSign := ""
  zero negative := if negative then "-0.0" else "0.0"
  infinity negative := if negative then "-.inf" else ".inf"
  nan := ".nan"
  tie := .even

/-! ## Forms of a text -/

/-- How a text can be written. -/
inductive Form where
  | plain
  | singleQuoted
  | doubleQuoted
  | literal
deriving DecidableEq

/-- The characters that cannot start a text without quotes. -/
def indicators : List Char :=
  ['#', ',', '[', ']', '\x7b', '\x7d', '&', '*', '!', '|', '>', '\'', '"', '%', '@', '\x60']

/-- Whether the start of a text would be taken for a mark. -/
def startsWithIndicator : List Char → Bool
  | '-' :: '-' :: '-' :: _ => true
  | '.' :: '.' :: '.' :: _ => true
  | c :: rest              =>
    indicators.contains c || ((c == '-' || c == '?' || c == ':') && endsWord rest)
  | []                     => false

/-- Whether a colon before a space, or a number sign after one, stands in a text. -/
def holdsIndicator : List Char → Bool
  | c :: d :: rest =>
    (c == ':' && (isSpace d || isBreak d)) || ((isSpace c || isBreak c) && d == '#')
      || holdsIndicator (d :: rest)
  | [c]            => c == ':'
  | []             => false

/-- Whether a blank stands at either end of a text. -/
def hasOuterBlank (text : List Char) : Bool :=
  text.head? == some ' ' || text.getLast? == some ' '

/-- Whether a character of one class stands right before one of another. -/
def holdsPair (first second : Char → Bool) : List Char → Bool
  | c :: d :: rest => (first c && second d) || holdsPair first second (d :: rest)
  | _              => false

/-- Whether a text reads back from any form but double quotes: all its characters are printable, and
    no blank comes before a line end. -/
def isClean (text : List Char) : Bool :=
  text.all isPrintable && !holdsPair (· == ' ') isBreak text

/-- Whether a text reads back without quotes, if it is understood as text at all. -/
def fitsPlain (text : List Char) : Bool :=
  isClean text && !text.any isBreak && !hasOuterBlank text && !startsWithIndicator text
    && !holdsIndicator text

/-- Whether a text reads back from single quotes. -/
def fitsSingleQuoted (text : List Char) : Bool :=
  isClean text && !holdsPair isBreak (· == ' ') text

/-- Whether a text reads back from lines under a bar. -/
def fitsLiteral (text : List Char) : Bool := isClean text && text.getLast? != some ' '

/-- The form that a text is written in. -/
def formOf (text : List Char) : Form :=
  if text.contains '\n' then
    if fitsLiteral text then .literal else .doubleQuoted
  else if !isAmbiguous text && fitsPlain text then .plain
  else if fitsSingleQuoted text then .singleQuoted
  else .doubleQuoted

/-! ## Texts -/

/-- The blanks at the start of a line. -/
def margin (indent : Nat) : List Char := List.replicate indent ' '

/-- The inside of single quotes. A quote is written twice, and a line end is followed by the
    margin. -/
def singleBody (indent : Nat) : List Char → List Char
  | []        => []
  | c :: rest =>
    if isBreak c then
      match rest with
      | []     => c :: margin indent
      | d :: _ => if isBreak d then c :: singleBody indent rest
        else c :: margin indent ++ singleBody indent rest
    else if c = '\'' then '\'' :: '\'' :: singleBody indent rest
    else c :: singleBody indent rest

/-- A text in single quotes. -/
def singleQuoted (indent : Nat) (text : List Char) : List Char :=
  '\'' :: singleBody indent text ++ ['\'']

/-- The letter that stands for a character after a backslash. -/
def escapeLetter? : Char → Option Char
  | '\x00'   => some '0'
  | '\x07'   => some 'a'
  | '\x08'   => some 'b'
  | '\t'     => some 't'
  | '\n'     => some 'n'
  | '\x0b'   => some 'v'
  | '\x0c'   => some 'f'
  | '\r'     => some 'r'
  | '\x1b'   => some 'e'
  | '"'      => some '"'
  | '\\'     => some '\\'
  | '\u0085' => some 'N'
  | '\u2028' => some 'L'
  | '\u2029' => some 'P'
  | _        => none

/-- A character inside double quotes. -/
def escapeChar (c : Char) : List Char :=
  match escapeLetter? c with
  | some letter => ['\\', letter]
  | none        =>
    if isPrintable c then [c]
    else if c.toNat < 0x100 then '\\' :: 'x' :: Digits.hex 'A' 2 c.toNat
    else '\\' :: 'u' :: Digits.hex 'A' 4 c.toNat

/-- A text in double quotes. -/
def doubleQuoted (text : List Char) : List Char := '"' :: text.flatMap escapeChar ++ ['"']

/-- The lines under a bar. Empty lines have no margin. -/
def literalBody (indent : Nat) (lineStart : Bool) : List Char → List Char
  | []        => []
  | c :: rest =>
    if isBreak c then c :: literalBody indent true rest
    else if lineStart then margin indent ++ c :: literalBody indent false rest
    else c :: literalBody indent false rest

/-- What the bar says of the line ends at the end of a text: a minus if there are none, a plus if
    there is nothing else or more than one. -/
def chompMark (text : List Char) : List Char :=
  match text.reverse with
  | []          => ['-']
  | [c]         => if isBreak c then ['+'] else ['-']
  | c :: d :: _ => if !isBreak c then ['-'] else if isBreak d then ['+'] else []

/-- What the bar says of the margin, if the text does not show it. -/
def marginMark : List Char → List Char
  | c :: _ => if c = ' ' ∨ isBreak c then ['2'] else []
  | []     => []

/-- A text as lines under a bar. -/
def literal (indent : Nat) (text : List Char) : List Char :=
  '|' :: marginMark text ++ chompMark text ++ '\n' :: literalBody indent true text

/-- A text as the end of a line, and perhaps more lines with a margin. -/
def textText (indent : Nat) (text : String) : String :=
  let chars := text.toList
  match formOf chars with
  | .plain        => text ++ "\n"
  | .singleQuoted => String.ofList (singleQuoted indent chars) ++ "\n"
  | .doubleQuoted => String.ofList (doubleQuoted chars) ++ "\n"
  | .literal      =>
    let lines := literal indent chars
    String.ofList (if (lines.getLast?.map isBreak).getD false then lines else lines ++ ['\n'])

/-- A key, which takes one line. -/
def keyText (key : String) : String :=
  let chars := key.toList
  if chars.any isBreak then String.ofList (doubleQuoted chars)
  else
    match formOf chars with
    | .plain        => key
    | .singleQuoted => String.ofList (singleQuoted 0 chars)
    | _             => String.ofList (doubleQuoted chars)

/-! ## Trees -/

/-- The blanks at the start of a line. -/
def marginText (indent : Nat) : String := String.ofList (margin indent)

mutual

/-- A value after the dash or the colon that stands at a level, with the ends of its lines. -/
def valueText (isItem : Bool) (indent : Nat) : Value → String
  | .null          => " null\n"
  | .bool true     => " true\n"
  | .bool false    => " false\n"
  | .int n         => " " ++ Json.intText n ++ "\n"
  | .float x       => " " ++ floatStyle.text x ++ "\n"
  | .text text     => " " ++ textText (indent + 2) text
  | .list []       => " []\n"
  | .table []      => " \x7b\x7d\n"
  | .list items    =>
    if isItem then " " ++ (marginText (indent + 2)).intercalate (itemTexts (indent + 2) items)
    else "\n" ++ marginText indent ++ (marginText indent).intercalate (itemTexts indent items)
  | .table entries =>
    (if isItem then " " else "\n" ++ marginText (indent + 2))
      ++ (marginText (indent + 2)).intercalate (entryTexts (indent + 2) entries)

/-- The items of a list at a level, each without the margin of its first line. -/
def itemTexts (indent : Nat) : List Value → List String
  | []            => []
  | item :: items => ("-" ++ valueText true indent item) :: itemTexts indent items

/-- The entries of a table at a level, each without the margin of its first line. -/
def entryTexts (indent : Nat) : List (String × Value) → List String
  | []                      => []
  | (key, value) :: entries =>
    (keyText key ++ ":" ++ valueText false indent value) :: entryTexts indent entries

end

/-- The YAML text of a tree. -/
def write : Value → String
  | .list (item :: items)    => String.join (itemTexts 0 (item :: items))
  | .table (entry :: entries) => String.join (entryTexts 0 (entry :: entries))
  | value                    => String.ofList ((valueText true 0 value).toList.drop 1)


end SchemaForge.Document.Yaml
