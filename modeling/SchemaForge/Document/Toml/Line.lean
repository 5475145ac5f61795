import SchemaForge.Document.Toml.Quoted
import SchemaForge.Document.Toml.Scalar
import SchemaForge.Document.Toml.Table

/-!
# `SchemaForge.Document.Toml.Line` — the lines of a TOML document

A line holds a header, an entry or nothing, and may end in a comment. Values are read here too: an
array may go over several lines and end in a comma, an inline table takes one line.
-/

namespace SchemaForge.Document.Toml

/-! ## Spaces and line ends -/

/-- A text without the spaces at its start. -/
def skipSpaces (text : List Char) : List Char := text.dropWhile isSpace

/-- What follows a comment, which lasts to the end of the line. -/
def skipComment (text : List Char) : List Char :=
  match text with
  | '#' :: rest => rest.dropWhile isPlain
  | rest        => rest

/-- What follows a line end. -/
def lineEnd? : List Char → Option (List Char)
  | '\n' :: rest         => some rest
  | '\r' :: '\n' :: rest => some rest
  | _                    => none

/-- What follows the end of a line: spaces, perhaps a comment, and a line end or the end of the
    text. -/
def endOfLine? (text : List Char) : Option (List Char) :=
  match skipComment (skipSpaces text) with
  | []   => some []
  | rest => lineEnd? rest

/-- What follows spaces, line ends and comments, for a text of at most `length` characters. -/
def skipLines? : Nat → List Char → Option (List Char)
  | 0,          text => some text
  | length + 1, text =>
    match skipSpaces text with
    | '#' :: rest =>
      match rest.dropWhile isPlain with
      | []    => some []
      | after => (lineEnd? after).bind (skipLines? length)
    | rest        =>
      match lineEnd? rest with
      | some after => skipLines? length after
      | none       => some rest

/-! ## Keys -/

/-- Whether a character may stand in a key without quotes. -/
def isBareChar (c : Char) : Bool :=
  ('a' ≤ c && c ≤ 'z') || ('A' ≤ c && c ≤ 'Z') || ('0' ≤ c && c ≤ '9') || c == '-' || c == '_'

/-- The key at the front of a text, and what follows it. -/
def simpleKey? (text : List Char) : Option (String × List Char) :=
  match text with
  | '"' :: rest  => (basicBody? rest).map fun (key, after) => (String.ofList key, after)
  | '\'' :: rest => (literalBody? rest).map fun (key, after) => (String.ofList key, after)
  | _            =>
    match text.takeWhile isBareChar with
    | []  => none
    | key => some (String.ofList key, text.dropWhile isBareChar)

/-- The path and the last key of a dotted key of at most `parts` parts, and what follows it. -/
def key? : Nat → List Char → Option (List String × String × List Char)
  | 0,         _    => none
  | parts + 1, text => do
    let (first, rest) ← simpleKey? (skipSpaces text)
    match skipSpaces rest with
    | '.' :: rest => do
      let (path, last, after) ← key? parts rest
      some (first :: path, last, after)
    | rest        => some ([], first, rest)

/-- The greatest number of parts of a key, and one more than the greatest depth of nested values. -/
def depthLimit : Nat := 80

/-! ## Values -/

/-- Builds a table from the entries of an inline one. -/
def inlineTable? (entries : List (List String × String × Node)) : Option Node :=
  (entries.foldlM (fun table (path, key, node) => Table.insert? path key node table)
    { origin := Origin.header }).map Table.toNode

mutual

/-- The value at the front of a text, inside at most `depthLimit - depth` arrays and inline
    tables. -/
def value? : Nat → Nat → List Char → Option (Node × List Char)
  | 0,        _,     _    => none
  | fuel + 1, depth, text =>
    match text with
    | '[' :: rest =>
      if depth ≤ 1 then none
      else (items? fuel (depth - 1) rest).map fun (items, after) => (.list items, after)
    | '{' :: rest =>
      if depth ≤ 1 then none
      else
        match skipSpaces rest with
        | '}' :: after => some (.table [], after)
        | rest         => do
          let (entries, after) ← entries? fuel (depth - 1) rest
          some (← inlineTable? entries, after)
    | 't' :: 'r' :: 'u' :: 'e' :: rest        => some (.scalar (.bool true), rest)
    | 'f' :: 'a' :: 'l' :: 's' :: 'e' :: rest => some (.scalar (.bool false), rest)
    | c :: _      =>
      if c = '"' ∨ c = '\'' then
        (string? text).map fun (text, after) => (.scalar (.text (String.ofList text)), after)
      else if startsDate text then dateTime? text
      else (number? text).map fun (value, after) => (.scalar value, after)
    | []          => none

/-- The items of an array up to its closing bracket. -/
def items? : Nat → Nat → List Char → Option (List Node × List Char)
  | 0,        _,     _    => none
  | fuel + 1, depth, text => do
    match ← skipLines? text.length text with
    | ']' :: after => some ([], after)
    | rest         => do
      let (item, rest) ← value? fuel depth rest
      match ← skipLines? rest.length rest with
      | ']' :: after => some ([item], after)
      | ',' :: rest  => do
        let (items, after) ← items? fuel depth rest
        some (item :: items, after)
      | _            => none

/-- The entries of an inline table up to its closing brace, one at least. -/
def entries? : Nat → Nat → List Char → Option (List (List String × String × Node) × List Char)
  | 0,        _,     _    => none
  | fuel + 1, depth, text => do
    let (path, key, rest) ← key? (depthLimit - 1) text
    match rest with
    | '=' :: rest => do
      let (node, rest) ← value? fuel depth (skipSpaces rest)
      match skipSpaces rest with
      | '}' :: after => some ([(path, key, node)], after)
      | ',' :: rest  => do
        let (entries, after) ← entries? fuel depth rest
        some ((path, key, node) :: entries, after)
      | _            => none
    | _           => none

end

/-! ## Lines -/

/-- A line of a document. -/
inductive Line where
  | blank
  /-- The header of a table: a path and the last key. -/
  | table (path : List String) (key : String)
  /-- The header of the next table of an array. -/
  | element (path : List String) (key : String)
  | entry (path : List String) (key : String) (node : Node)

/-- The line at the front of a text, without its end, and what follows it. -/
def line? (text : List Char) : Option (Line × List Char) :=
  match skipSpaces text with
  | '[' :: '[' :: rest => do
    let (path, key, rest) ← key? (depthLimit - 1) rest
    match rest with
    | ']' :: ']' :: rest => some (.element path key, rest)
    | _                  => none
  | '[' :: rest        => do
    let (path, key, rest) ← key? (depthLimit - 1) rest
    match rest with
    | ']' :: rest => some (.table path key, rest)
    | _           => none
  | rest               =>
    if rest.isEmpty || rest.head? == some '#' || (lineEnd? rest).isSome then some (.blank, rest)
    else do
      let (path, key, rest) ← key? (depthLimit - 1) rest
      match rest with
      | '=' :: rest => do
        let (node, rest) ← value? (2 * rest.length + 2) depthLimit (skipSpaces rest)
        some (.entry path key node, rest)
      | _           => none

/-- The lines of a text of at most `length` characters. -/
def lines? : Nat → List Char → Option (List Line)
  | _,          []        => some []
  | 0,          _ :: _    => none
  | length + 1, c :: text => do
    let (line, rest) ← line? (c :: text)
    let rest ← endOfLine? rest
    let lines ← lines? length rest
    some (line :: lines)

end SchemaForge.Document.Toml
