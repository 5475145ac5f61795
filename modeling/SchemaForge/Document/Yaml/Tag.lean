import SchemaForge.Document.Yaml.Character
import SchemaForge.Document.Yaml.Meaning

/-!
# `SchemaForge.Document.Yaml.Tag` — tags, and what a scalar with a tag means

A tag is written with a handle, which a directive may declare to stand for the start of a longer
name, or in full between angle brackets. A few names force the meaning of a scalar; a tag that is
local to the document makes it unreadable once meanings are settled; any other tag makes it text.

## Contents
- **Written tags.** `Tag`, and `tag?`, which reads one.
- **Names.** `tagName?` looks the handle up.
- **Meaning.** `taggedScalar`.
-/

namespace SchemaForge.Document.Yaml

/-! ## Written tags -/

/-- A tag as it is written: a handle, empty for a tag in full, and the rest. -/
structure Tag where
  handle : String
  rest : String
deriving DecidableEq

/-- Whether a character may stand in the name of a tag. In full it may also hold brackets and
    commas. -/
def isTagChar (isFull : Bool) (c : Char) : Bool :=
  isNameChar c || ";/?:@&=+$.%!~*'()".toList.contains c || (isFull && ",[]".toList.contains c)

/-- The bytes of the escapes at the front of a text, `count` of them. -/
def escapedBytes? : Nat → List Char → Option (List UInt8 × List Char)
  | 0,         rest => some ([], rest)
  | count + 1, text =>
    match text with
    | '%' :: a :: b :: rest => do
      let byte ← Digits.read? 16 [a, b]
      let (bytes, after) ← escapedBytes? count rest
      some (byte.toUInt8 :: bytes, after)
    | _                     => none

/-- How many bytes the encoding of a character has that starts with a byte. -/
def encodedWidth? (byte : Nat) : Option Nat :=
  if byte < 0x80 then some 1
  else if byte < 0xC0 then none
  else if byte < 0xE0 then some 2
  else if byte < 0xF0 then some 3
  else if byte < 0xF8 then some 4
  else none

/-- The character whose bytes are escaped at the front of a text, and what follows it. -/
def escapedTagChar? (text : List Char) : Option (Char × List Char) := do
  let (first, _) ← escapedBytes? 1 text
  let width ← encodedWidth? (first.headD 0).toNat
  let (bytes, after) ← escapedBytes? width text
  let decoded ← String.fromUTF8? ⟨bytes.toArray⟩
  let c ← decoded.toList.head?
  some (c, after)

/-- The name characters at the front of a text of at most `length` characters, and what follows. -/
def tagChars? (isFull : Bool) : Nat → List Char → Option (List Char × List Char)
  | 0,          text => some ([], text)
  | length + 1, text =>
    match text with
    | []        => some ([], [])
    | c :: rest =>
      if !isTagChar isFull c then some ([], text)
      else do
        let (first, after) ← if c = '%' then escapedTagChar? text else some (c, rest)
        let (others, after) ← tagChars? isFull length after
        some (first :: others, after)

/-- The tag after an exclamation mark, and what follows it. -/
def tag? (text : List Char) : Option (Tag × List Char) :=
  match text with
  | '<' :: rest => do
    let (name, after) ← tagChars? true rest.length rest
    match name, after with
    | _ :: _, '>' :: after => some (⟨"", String.ofList name⟩, after)
    | _, _                 => none
  | _           =>
    let word := text.takeWhile isNameChar
    match text.dropWhile isNameChar with
    | '!' :: rest => do
      let (name, after) ← tagChars? false rest.length rest
      if name.isEmpty then none
      else some (⟨"!" ++ String.ofList word ++ "!", String.ofList name⟩, after)
    | rest        => do
      let (name, after) ← tagChars? false rest.length rest
      match word ++ name with
      | []   => some (⟨"", "!"⟩, after)
      | name => some (⟨"!", String.ofList name⟩, after)

/-! ## Names -/

/-- The full name of a tag under the declared handles. -/
def tagName? (handles : List (String × String)) (tag : Tag) : Option String :=
  if tag.handle = "" then some tag.rest
  else
    match handles.lookup tag.handle with
    | some start => some (start ++ tag.rest)
    | none       =>
      if tag.handle = "!" then some ("!" ++ tag.rest)
      else if tag.handle = "!!" then some ("tag:yaml.org,2002:" ++ tag.rest)
      else none

/-- Whether a tag is local to its document. -/
def isLocalTag (name : String) : Bool := name.toList.head? == some '!'

/-! ## Meaning -/

/-- How a scalar is written. -/
inductive ScalarForm where
  | plain
  | quoted
  | kept
  | joined
deriving DecidableEq

/-- What a scalar with a tag means once meanings are settled. -/
def settledMeaning (name text : String) : Scalar :=
  let chars := text.toList
  if name = "tag:yaml.org,2002:bool" then ((boolWord? chars).map .bool).getD .unreadable
  else if name = "tag:yaml.org,2002:int" then ((integer? chars).bind intScalar?).getD .unreadable
  else if name = "tag:yaml.org,2002:float" then ((float? chars).map .float).getD .unreadable
  else if name = "tag:yaml.org,2002:null" then if isNullWord chars then .null else .unreadable
  else if isLocalTag name then .unreadable
  else .text text

/-- What a scalar with a tag means where it is read straight from the document. -/
def directMeaning (form : ScalarForm) (name text : String) : Scalar :=
  let chars := text.toList
  match form with
  | .plain =>
    if name = "tag:yaml.org,2002:null" then settledMeaning name text
    else if meaning chars = .null then .text text
    else meaning chars
  | .kept  =>
    if name = "tag:yaml.org,2002:bool" then ((boolWord? chars).map .bool).getD (.text text)
    else .text text
  | _      => .text text

/-- The node of a scalar that may have a tag. The tag that is only an exclamation mark says
    nothing. -/
def taggedScalar (form : ScalarForm) (name : Option String) (text : String) : Node :=
  match name.filter (· != "!") with
  | some name => .written text (directMeaning form name text) (settledMeaning name text)
  | none      =>
    if form = .plain then .written text (meaning text.toList) (meaning text.toList)
    else .scalar (.text text)

end SchemaForge.Document.Yaml
