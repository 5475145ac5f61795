import SchemaForge.Text.Digits

/-!
# `SchemaForge.Document.Toml.Quoted` — strings in a TOML text

A string is basic, with escapes, or literal, without; either takes one line between single marks or
several between triple ones. Reading gives a line end inside a string as a line feed. Writing takes
the first form in which the text can stand as it is, up to tabs, and escapes only if there is none.

## Contents
- **Characters.** `isPlain`, the characters that may stand in any string.
- **Reading.** `string?`, a string of any form.
- **Writing.** `quoted`, the form that a text is written in.
-/

namespace SchemaForge.Document.Toml

/-! ## Characters -/

/-- Whether a character may stand in a string or a comment as it is. -/
def isPlain (c : Char) : Bool := c == '\t' || (' ' ≤ c && c ≠ '\x7f')

/-- Whether a character may stand between the parts of a line. -/
def isSpace (c : Char) : Bool := c == ' ' || c == '\t'

/-- The character of a code point, if there is one. -/
def charOfPoint? (point : Nat) : Option Char :=
  if point < 0xD800 ∨ (0xE000 ≤ point ∧ point < 0x110000) then some (Char.ofNat point) else none

/-- The character after a backslash in a short escape. -/
def shortEscape? : Char → Option Char
  | 'b'  => some '\x08'
  | 't'  => some '\t'
  | 'n'  => some '\n'
  | 'f'  => some '\x0c'
  | 'r'  => some '\r'
  | '"'  => some '"'
  | '\\' => some '\\'
  | _    => none

/-- The character of hexadecimal digits. -/
def pointEscape? (digits : List Char) : Option Char :=
  (Digits.read? 16 digits).bind charOfPoint?

/-! ## Reading -/

/-- Puts a character before what has been read. -/
def addChar (c : Char) : List Char × List Char → List Char × List Char
  | (text, after) => (c :: text, after)

/-- The inside of a basic string of one line, and what follows its closing mark. -/
def basicBody? : List Char → Option (List Char × List Char)
  | []          => none
  | '"' :: rest => some ([], rest)
  | '\\' :: 'u' :: a :: b :: c :: d :: rest =>
    match pointEscape? [a, b, c, d] with
    | some point => (basicBody? rest).map (addChar point)
    | none       => none
  | '\\' :: 'U' :: a :: b :: c :: d :: e :: f :: g :: h :: rest =>
    match pointEscape? [a, b, c, d, e, f, g, h] with
    | some point => (basicBody? rest).map (addChar point)
    | none       => none
  | '\\' :: c :: rest =>
    match shortEscape? c with
    | some escaped => (basicBody? rest).map (addChar escaped)
    | none         => none
  | c :: rest   => if isPlain c ∧ c ≠ '\\' then (basicBody? rest).map (addChar c) else none

/-- The inside of a literal string of one line, and what follows its closing mark. -/
def literalBody? : List Char → Option (List Char × List Char)
  | []           => none
  | '\'' :: rest => some ([], rest)
  | c :: rest    => if isPlain c then (literalBody? rest).map (addChar c) else none

/-- Whether the first line end of a text has only spaces before it. -/
def endsLine : List Char → Bool
  | []                   => false
  | '\n' :: _            => true
  | '\r' :: '\n' :: _    => true
  | c :: rest            => isSpace c && endsLine rest

/-- What a mark of three stands for and what follows: up to two more marks belong to the text. -/
def closeTriple (mark : Char) (rest : List Char) : List Char × List Char :=
  match rest with
  | a :: b :: after =>
    if a = mark ∧ b = mark then ([mark, mark], after)
    else if a = mark then ([mark], b :: after)
    else ([], a :: b :: after)
  | [a] => if a = mark then ([mark], []) else ([], [a])
  | []  => ([], [])

/-- The inside of a literal string of several lines, and what follows its closing marks. -/
def literalLines? : List Char → Option (List Char × List Char)
  | []                           => none
  | '\r' :: '\n' :: rest         => (literalLines? rest).map (addChar '\n')
  | '\n' :: rest                 => (literalLines? rest).map (addChar '\n')
  | '\'' :: '\'' :: '\'' :: rest => some (closeTriple '\'' rest)
  | c :: rest                    =>
    if isPlain c then (literalLines? rest).map (addChar c) else none

/-- The inside of a basic string of several lines, and what follows its closing marks. After a
    backslash at the end of a line, white space is `skipping` until something else comes. -/
def basicLines? (skipping : Bool) : List Char → Option (List Char × List Char)
  | []                        => none
  | '\r' :: '\n' :: rest      =>
    if skipping then basicLines? true rest else (basicLines? false rest).map (addChar '\n')
  | '\n' :: rest              =>
    if skipping then basicLines? true rest else (basicLines? false rest).map (addChar '\n')
  | '"' :: '"' :: '"' :: rest => some (closeTriple '"' rest)
  | '\\' :: 'u' :: a :: b :: c :: d :: rest =>
    match pointEscape? [a, b, c, d] with
    | some point => (basicLines? false rest).map (addChar point)
    | none       => none
  | '\\' :: 'U' :: a :: b :: c :: d :: e :: f :: g :: h :: rest =>
    match pointEscape? [a, b, c, d, e, f, g, h] with
    | some point => (basicLines? false rest).map (addChar point)
    | none       => none
  | '\\' :: c :: rest         =>
    if endsLine (c :: rest) then basicLines? true (c :: rest)
    else
      match shortEscape? c with
      | some escaped => (basicLines? false rest).map (addChar escaped)
      | none         => none
  | c :: rest                 =>
    if skipping ∧ isSpace c then basicLines? true rest
    else if isPlain c ∧ c ≠ '\\' then (basicLines? false rest).map (addChar c)
    else none

/-- A text without the line end at its start. -/
def dropLineEnd : List Char → List Char
  | '\n' :: rest         => rest
  | '\r' :: '\n' :: rest => rest
  | text                 => text

/-- The string at the front of a text, and what follows it. -/
def string? : List Char → Option (List Char × List Char)
  | '"' :: '"' :: '"' :: rest    => basicLines? false (dropLineEnd rest)
  | '\'' :: '\'' :: '\'' :: rest => literalLines? (dropLineEnd rest)
  | '"' :: rest                  => basicBody? rest
  | '\'' :: rest                 => literalBody? rest
  | _                            => none

/-! ## Writing -/

/-- The length of the longest run of a character. -/
def longestRun (c : Char) (current : Nat) : List Char → Nat
  | []        => current
  | d :: rest =>
    if d = c then longestRun c (current + 1) rest else max current (longestRun c 0 rest)

/-- Whether a character can only be written as an escape. -/
def needsEscape (c : Char) : Bool := (c < ' ' && c ≠ '\t' && c ≠ '\n') || c == '\x7f'

/-- A character that is written as an escape wherever it stands. -/
def escapeChar (c : Char) : Option (List Char) :=
  match c with
  | '\x08' => some ['\\', 'b']
  | '\t'   => some ['\\', 't']
  | '\x0c' => some ['\\', 'f']
  | '\r'   => some ['\\', 'r']
  | '\\'   => some ['\\', '\\']
  | c      => if needsEscape c then some (['\\', 'u'] ++ Digits.hex 'A' 4 c.toNat) else none

/-- The inside of a basic string. A quote is escaped when more than `allowed` would stand in a row,
    and a line end when the string takes one line. -/
def escapeBasic (multiline : Bool) (allowed run : Nat) : List Char → List Char
  | []        => []
  | c :: rest =>
    if c = '"' then
      if run < allowed then '"' :: escapeBasic multiline allowed (run + 1) rest
      else '\\' :: '"' :: escapeBasic multiline allowed 0 rest
    else if c = '\n' ∧ !multiline then '\\' :: 'n' :: escapeBasic multiline allowed 0 rest
    else
      match escapeChar c with
      | some escaped => escaped ++ escapeBasic multiline allowed 0 rest
      | none         => c :: escapeBasic multiline allowed 0 rest

/-- The text between marks, on lines of its own if it has several. -/
def enclosed (mark : String) (hasLines : Bool) (inside : List Char) : String :=
  mark ++ (if hasLines then "\n" else "") ++ String.ofList inside ++ mark

/-- A text as a string. A basic string that needs no escapes but tabs is taken before a literal one,
    and one line before several. -/
def quoted (text : String) : String :=
  let chars := text.toList
  let hasLines := chars.contains '\n'
  let escapes := chars.any needsEscape
  let backslash := chars.contains '\\'
  let doubles := longestRun '"' 0 chars
  let singles := longestRun '\'' 0 chars
  let basic := enclosed "\"" false (escapeBasic false 0 0 chars)
  let basicLines := enclosed "\"\"\"" hasLines (escapeBasic true 2 0 chars)
  if !escapes && !backslash && doubles == 0 && !hasLines then basic
  else if !escapes && singles == 0 && !hasLines then enclosed "'" false chars
  else if !escapes && !backslash && doubles ≤ 2 then basicLines
  else if !escapes && singles ≤ 2 then enclosed "'''" hasLines chars
  else if hasLines then basicLines
  else basic

end SchemaForge.Document.Toml
