import SchemaForge.Document.Yaml.Block
import SchemaForge.Document.Yaml.Plain
import SchemaForge.Document.Yaml.Tag

/-!
# `SchemaForge.Document.Yaml.Token` — the tokens of a YAML text

Tokens show the structure that indentation gives a text: a list or a table in block style is opened
before its first entry and closed where the indentation ends. A key is recognised by the colon after
it. The text before a colon on the same line is therefore kept as a *candidate*, and when the colon
comes, the token of a key, and perhaps that of a table, are put in front of it.

## Contents
- **Tokens.** `Token`.
- **Places.** `Scan`, what is left of a text and what has been seen of it; `Candidate`.
- **Single tokens.** `Scan.fetch?` adds the tokens for what stands at the front of the text.
- **All tokens.** `tokens?`.
-/

namespace SchemaForge.Document.Yaml

/-! ## Tokens -/

/-- A token. -/
inductive Token where
  /-- A directive that says the version of YAML. -/
  | version (major minor : Nat)
  /-- A directive that declares the handle of tags. -/
  | handle (name start : String)
  | documentStart
  | documentEnd
  | blockList
  | blockTable
  | blockEnd
  | openList
  | closeList
  | openTable
  | closeTable
  /-- The dash before an item. -/
  | dash
  | comma
  | key
  | value
  | alias (name : String)
  | anchor (name : String)
  | tag (tag : Tag)
  | scalar (form : ScalarForm) (text : String)
deriving DecidableEq

/-! ## Places -/

/-- What may turn out to be a key: where it stands in the text and among the tokens. -/
structure Candidate where
  place : Nat
  index : Nat
  line : Nat
  column : Nat
  /-- Whether nothing but a key can stand there. -/
  isRequired : Bool

/-- How far a text has been read. -/
structure Scan where
  rest : List Char
  index : Nat := 0
  line : Nat := 0
  column : Nat := 0
  /-- The columns of the block collections that are open, the innermost first. -/
  indents : List Nat := []
  /-- What may be a key, outside of all brackets last, and before it for each open bracket. -/
  candidates : List (Option Candidate) := [none]
  /-- Whether a key may start here. -/
  allowsKey : Bool := true
  tokens : Array Token := #[]

namespace Scan

/-- Whether the place is between brackets or braces. -/
def isInside (scan : Scan) : Bool := scan.candidates.length > 1

/-- The first column that is inside of the innermost block collection. -/
def level (scan : Scan) : Nat :=
  match scan.indents with
  | []          => 0
  | indent :: _ => indent + 1

def push (scan : Scan) (token : Token) : Scan := { scan with tokens := scan.tokens.push token }

/-- Moves on to what is left of a text after some characters. -/
def advanceTo (scan : Scan) (rest : List Char) : Scan :=
  pass scan.index scan.line scan.column (scan.rest.take (scan.rest.length - rest.length))
where
  /-- The place after characters. -/
  pass (index line column : Nat) : List Char → Scan
    | []      => { scan with rest, index, line, column }
    | c :: cs =>
      if isBreak c then pass (index + 1) (line + 1) 0 cs else pass (index + 1) line (column + 1) cs

/-! ## Block collections -/

/-- Opens a block collection at a column that is deeper than the innermost one, with its token put
    before the token at a place. -/
def openBlock (scan : Scan) (column place : Nat) (token : Token) : Scan :=
  if scan.isInside || column < scan.level then scan
  else
    { scan with
      indents := column :: scan.indents
      tokens := scan.tokens.insertIdxIfInBounds place token }

/-- Closes the block collections that are deeper than a level; the first level is zero, and all
    columns are deeper than none. -/
def closeBlocks (scan : Scan) (level : Nat) : Scan :=
  if scan.isInside then scan
  else
    { scan with
      indents := scan.indents.dropWhile fun indent => level ≤ indent
      tokens := scan.tokens ++
        (scan.indents.takeWhile fun indent => level ≤ indent).map fun _ => Token.blockEnd }

/-! ## Candidates -/

/-- Replaces the innermost candidate. -/
def setCandidate (scan : Scan) (candidate : Option Candidate) : Scan :=
  { scan with candidates := candidate :: scan.candidates.drop 1 }

/-- The innermost candidate. -/
def candidate? (scan : Scan) : Option Candidate := (scan.candidates.head?).join

/-- Gives up the innermost candidate, unless it is required. -/
def dropCandidate? (scan : Scan) : Option Scan :=
  match scan.candidate? with
  | some candidate => if candidate.isRequired then none else some (scan.setCandidate none)
  | none           => some scan

/-- Notes that what comes next may be a key. -/
def noteCandidate? (scan : Scan) : Option Scan :=
  if !scan.allowsKey then some scan
  else
    scan.dropCandidate?.map fun scan =>
      scan.setCandidate
        (some
          { place := scan.tokens.size, index := scan.index, line := scan.line,
            column := scan.column,
            isRequired := !scan.isInside && scan.indents.head? == some scan.column })

/-- Whether a candidate is on another line or too far away. -/
def isStale (scan : Scan) (candidate : Candidate) : Bool :=
  candidate.line < scan.line || candidate.index + 1024 < scan.index

/-- Gives up the candidates that can be keys no more. A required one may not be among them. -/
def dropStale? (scan : Scan) : Option Scan :=
  let isLost (candidate : Option Candidate) : Bool :=
    (candidate.map fun c => scan.isStale c && c.isRequired).getD false
  if scan.candidates.any isLost then none
  else
    some { scan with candidates := scan.candidates.map fun candidate =>
      candidate.filter fun c => !scan.isStale c }

/-! ## Spaces and comments -/

/-- What follows spaces, comments and line ends, and whether a key may start there. A tab is no
    space where a key may start, except between brackets. -/
def skipBlanks (isInside : Bool) : Bool → Bool → List Char → List Char × Bool
  | _,         allowsKey, []        => ([], allowsKey)
  | isComment, allowsKey, c :: rest =>
    if isBreak c then skipBlanks isInside false (allowsKey || !isInside) rest
    else if isComment || c == '#' then skipBlanks isInside true allowsKey rest
    else if c == ' ' || (c == '\t' && (isInside || !allowsKey)) then
      skipBlanks isInside false allowsKey rest
    else (c :: rest, allowsKey)

/-- Moves on to the next token. -/
def skip (scan : Scan) : Scan :=
  let (rest, allowsKey) := skipBlanks scan.isInside false scan.allowsKey scan.rest
  { scan.advanceTo rest with allowsKey }

/-! ## Directives -/

/-- A decimal numeral of at most nine digits, and what follows it. -/
def versionNumber? (text : List Char) : Option (Nat × List Char) :=
  let (digits, rest) := Digits.span 10 text
  if digits.length ≤ 9 then (Digits.read? 10 digits).map fun n => (n, rest) else none

/-- The token of a directive, after its name. -/
def directiveToken? (name : String) (text : List Char) : Option (Token × List Char) :=
  let text := text.dropWhile isSpace
  match name with
  | "YAML" => do
    let (major, rest) ← versionNumber? text
    match rest with
    | '.' :: rest => (versionNumber? rest).map fun (minor, after) => (.version major minor, after)
    | _           => none
  | "TAG"  =>
    match text with
    | '!' :: rest => do
      let word := rest.takeWhile isNameChar
      let (handle, rest) ←
        match rest.dropWhile isNameChar with
        | '!' :: after => some ("!" ++ String.ofList word ++ "!", after)
        | after        => if word.isEmpty then some ("!", after) else none
      if !(rest.head?.map isSpace).getD false then none
      else do
        let rest := rest.dropWhile isSpace
        let (start, after) ← tagChars? true rest.length rest
        if start.isEmpty || !endsWord after then none
        else some (.handle handle (String.ofList start), after)
    | _           => none
  | _      => none

/-- The token of a directive after its percent sign, and what follows its line. -/
def directive? (text : List Char) : Option (Token × List Char) := do
  let name := text.takeWhile isNameChar
  let rest := text.dropWhile isNameChar
  if !endsWord rest then none
  else do
    let (token, rest) ← directiveToken? (String.ofList name) rest
    let rest := rest.dropWhile isSpace
    let rest := if rest.head? = some '#' then rest.dropWhile fun c => !isBreak c else rest
    match rest with
    | []     => some (token, [])
    | c :: _ => if isBreak c then some (token, dropBreak rest) else none

/-! ## Single tokens -/

/-- Ends all block collections and adds a token that stands outside of them. -/
def outside? (scan : Scan) (token : Token) (rest : List Char) : Option Scan :=
  (scan.closeBlocks 0).dropCandidate?.map fun scan =>
    ({ scan with allowsKey := false }.advanceTo rest).push token

/-- Opens a list or table in brackets. -/
def openBracket? (scan : Scan) (token : Token) (rest : List Char) : Option Scan :=
  scan.noteCandidate?.map fun scan =>
    ({ scan with candidates := none :: scan.candidates, allowsKey := true }.advanceTo rest).push
      token

/-- Closes a list or table in brackets. -/
def closeBracket? (scan : Scan) (token : Token) (rest : List Char) : Option Scan :=
  scan.dropCandidate?.map fun scan =>
    let candidates := if scan.isInside then scan.candidates.drop 1 else scan.candidates
    ({ scan with candidates, allowsKey := false }.advanceTo rest).push token

/-- Adds the comma between items or entries. -/
def comma? (scan : Scan) (rest : List Char) : Option Scan :=
  scan.dropCandidate?.map fun scan =>
    ({ scan with allowsKey := true }.advanceTo rest).push .comma

/-- Adds the dash before an item. -/
def dash? (scan : Scan) (rest : List Char) : Option Scan :=
  if !scan.isInside && !scan.allowsKey then none
  else
    (scan.openBlock scan.column scan.tokens.size .blockList).dropCandidate?.map fun scan =>
      ({ scan with allowsKey := true }.advanceTo rest).push .dash

/-- Adds the question mark before a key. -/
def key? (scan : Scan) (rest : List Char) : Option Scan :=
  if !scan.isInside && !scan.allowsKey then none
  else
    (scan.openBlock scan.column scan.tokens.size .blockTable).dropCandidate?.map fun scan =>
      ({ scan with allowsKey := !scan.isInside }.advanceTo rest).push .key

/-- Adds the colon before a value, and the key before it if there is a candidate. -/
def value? (scan : Scan) (rest : List Char) : Option Scan :=
  match scan.candidate? with
  | some candidate =>
    let scan := { scan with tokens := scan.tokens.insertIdxIfInBounds candidate.place .key }
    let scan := scan.openBlock candidate.column candidate.place .blockTable
    some (({ scan.setCandidate none with allowsKey := false }.advanceTo rest).push .value)
  | none           =>
    if !scan.isInside && !scan.allowsKey then none
    else
      let scan := scan.openBlock scan.column scan.tokens.size .blockTable
      some (({ scan with allowsKey := !scan.isInside }.advanceTo rest).push .value)

/-- Adds a token that may be, or may start, a key. -/
def word? (scan : Scan) (token : Token) (rest : List Char) : Option Scan :=
  scan.noteCandidate?.map fun scan => ({ scan with allowsKey := false }.advanceTo rest).push token

/-- The name after the mark of an anchor or alias, and what follows it. -/
def anchorName? (text : List Char) : Option (String × List Char) :=
  let name := text.takeWhile isNameChar
  let rest := text.dropWhile isNameChar
  let isEnded :=
    endsWord rest || (rest.head?.map fun c => "?:,]\x7d%@\x60".toList.contains c).getD false
  if name.isEmpty || !isEnded then none else some (String.ofList name, rest)

/-- Adds a tag. -/
def tagToken? (scan : Scan) (text : List Char) : Option Scan := do
  let (tag, rest) ← tag? text
  if endsWord rest || (scan.isInside && rest.head? == some ',') then scan.word? (.tag tag) rest
  else none

/-- Adds a scalar of indented lines. -/
def block? (scan : Scan) (isKept : Bool) (text : List Char) : Option Scan := do
  let scan ← scan.dropCandidate?
  let (content, rest) ← blockText? isKept scan.level text
  let token := Token.scalar (if isKept then .kept else .joined) content
  some (({ scan with allowsKey := true }.advanceTo rest).push token)

/-- Adds a scalar without quotes. -/
def plain? (scan : Scan) (text : List Char) : Option Scan := do
  let scan ← scan.noteCandidate?
  let (content, isBroken, rest) ←
    PlainContext.text? ⟨scan.isInside, scan.level⟩ scan.column text
  some (({ scan with allowsKey := isBroken }.advanceTo rest).push (.scalar .plain content))

/-- Whether a scalar without quotes may start with a character and what follows it. -/
def startsPlain (isInside : Bool) (c : Char) (rest : List Char) : Bool :=
  if c == '-' then !(rest.head?.map isSpace).getD false
  else if c == '?' || c == ':' then !isInside && !endsWord rest
  else
    !(isSpace c || isBreak c || ",[]\x7b\x7d#&*!|>'\"%@\x60".toList.contains c)

/-- Adds the tokens for what stands at the front of the text. -/
def fetch? (scan : Scan) (c : Char) (rest : List Char) : Option Scan :=
  let text := c :: rest
  if scan.column = 0 ∧ c = '%' then
    (directive? rest).bind fun (token, after) => scan.outside? token after
  else if scan.column = 0 ∧ startsMarker text then
    scan.outside? (if c = '-' then .documentStart else .documentEnd) (rest.drop 2)
  else
    match c with
    | '['    => scan.openBracket? .openList rest
    | '\x7b' => scan.openBracket? .openTable rest
    | ']'    => scan.closeBracket? .closeList rest
    | '\x7d' => scan.closeBracket? .closeTable rest
    | ','    => scan.comma? rest
    | '*'    => (anchorName? rest).bind fun (name, after) => scan.word? (.alias name) after
    | '&'    => (anchorName? rest).bind fun (name, after) => scan.word? (.anchor name) after
    | '!'    => scan.tagToken? rest
    | '\''   => (singleText? rest).bind fun (text, after) => scan.word? (.scalar .quoted text) after
    | '"'    => (doubleText? rest).bind fun (text, after) => scan.word? (.scalar .quoted text) after
    | _      =>
      if c = '-' ∧ endsWord rest then scan.dash? rest
      else if c = '?' ∧ (scan.isInside ∨ endsWord rest) then scan.key? rest
      else if c = ':' ∧ (scan.isInside ∨ endsWord rest) then scan.value? rest
      else if (c = '|' ∨ c = '>') ∧ !scan.isInside then scan.block? (c = '|') rest
      else if startsPlain scan.isInside c rest then scan.plain? text
      else none

/-! ## All tokens -/

/-- The tokens of the rest of a text, which takes at most `steps` steps. -/
def tokensWithin? : Nat → Scan → Option (List Token)
  | 0,         _    => none
  | steps + 1, scan => do
    let scan ← scan.skip.dropStale?
    match scan.rest with
    | []        => (scan.closeBlocks 0).dropCandidate?.map fun scan => scan.tokens.toList
    | c :: rest => do
      let next ← (scan.closeBlocks (scan.column + 1)).fetch? c rest
      tokensWithin? steps next

end Scan

/-- The tokens of a text. A byte order mark at its start is passed over and takes one column. -/
def tokens? (text : List Char) : Option (List Token) :=
  if !text.all isAllowed then none
  else
    let start : Scan :=
      match text with
      | '\ufeff' :: rest => { rest, index := 1, column := 1 }
      | _                => { rest := text }
    start.tokensWithin? (text.length + 1)

end SchemaForge.Document.Yaml
