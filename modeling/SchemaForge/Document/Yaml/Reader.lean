import SchemaForge.Document.Yaml.Token

/-!
# `SchemaForge.Document.Yaml.Reader` — reading a YAML text

The reader turns tokens into a node. An alias stands for the node of its anchor; inside that node
itself it is unreadable. Collections may be nested 128 deep; a part that is nested deeper is
unreadable. A text holds one document.

## Contents
- **Streams.** `Stream`, the tokens that are left and the anchors seen.
- **Nodes.** `node?` and the readers of collections, each of which uses fuel for the depth of
  nesting and the number of entries.
- **Documents.** `read?`.
-/

namespace SchemaForge.Document.Yaml

/-! ## Streams -/

/-- The tokens that are left, the nodes of the anchors seen and the handles of tags. -/
structure Stream where
  tokens : List Token
  anchors : List (String × Node) := []
  handles : List (String × String) := []

namespace Stream

/-- The token at the front. -/
def peek (stream : Stream) : Option Token := stream.tokens.head?

/-- The stream without its first token. -/
def drop (stream : Stream) : Stream := { stream with tokens := stream.tokens.drop 1 }

/-- Lets an anchor stand for a node. -/
def bind (stream : Stream) (anchor : Option String) (node : Node) : Stream :=
  match anchor with
  | some name => { stream with anchors := (name, node) :: stream.anchors }
  | none      => stream

end Stream

/-! ## Properties -/

/-- The anchor and the tag in front of a node. -/
structure Properties where
  anchor : Option String := none
  tag : Option String := none

/-- The name of a tag at the front. -/
def tagAt? (stream : Stream) (tag : Tag) : Option (String × Stream) :=
  (tagName? stream.handles tag).map fun name => (name, stream.drop)

/-- The properties at the front of a stream, in either order. -/
def properties? (stream : Stream) : Option (Properties × Stream) :=
  match stream.tokens with
  | .anchor name :: .tag tag :: _ =>
    (tagAt? stream.drop tag).map fun (tag, rest) => (⟨some name, some tag⟩, rest)
  | .anchor name :: _             => some (⟨some name, none⟩, stream.drop)
  | .tag tag :: .anchor name :: _ =>
    (tagAt? stream tag).map fun (tag, rest) => (⟨some name, some tag⟩, rest.drop)
  | .tag tag :: _                 =>
    (tagAt? stream tag).map fun (tag, rest) => (⟨none, some tag⟩, rest)
  | _                             => some ({}, stream)

/-- A collection with a tag. A local tag makes it unreadable. -/
def taggedCollection (tag : Option String) (node : Node) : Node :=
  if (tag.map isLocalTag).getD false then .scalar .unreadable else node

/-! ## Nodes -/

/-- Where a node stands. -/
inductive Position where
  /-- As the root, or as an item in block style. -/
  | item
  /-- As a key or value in block style, where the dashes of a list need no indentation. -/
  | member
  /-- Between brackets or braces. -/
  | inside
deriving DecidableEq

/-- The scalar of a place that is left empty. -/
def emptyScalar : Node := taggedScalar .plain none ""

/-- Whether a token ends an entry in block style. -/
def endsBlockMember : Option Token → Bool
  | some .key      => true
  | some .value    => true
  | some .blockEnd => true
  | _              => false

/-- Whether a token ends an item in block style. -/
def endsBlockItem : Option Token → Bool
  | some .dash     => true
  | some .blockEnd => true
  | _              => false

/-- Whether a token ends a key or value between brackets, in a list or in a table. -/
def endsInside (isTable : Bool) : Option Token → Bool
  | some .comma      => true
  | some .closeTable => isTable
  | some .closeList  => !isTable
  | _                => false

mutual

/-- The node at the front of a stream. -/
def node? : Nat → Position → Stream → Option (Node × Stream)
  | 0,        _,        _      => none
  | fuel + 1, position, stream =>
    match stream.peek with
    | some (.alias name) => (stream.anchors.lookup name).map fun node => (node, stream.drop)
    | _                  => do
      let (properties, stream) ← properties? stream
      let collection (result : Option (Node × Stream)) : Option (Node × Stream) :=
        result.map fun (node, rest) =>
          let node := taggedCollection properties.tag node
          (node, rest.bind properties.anchor node)
      let opened := stream.bind properties.anchor (.scalar .unreadable)
      match position, stream.peek with
      | .member, some .dash             =>
        collection ((freeItems? fuel opened).map fun (items, rest) => (.list items, rest))
      | _, some (.scalar form text)     =>
        let node := taggedScalar form properties.tag text
        some (node, stream.drop.bind properties.anchor node)
      | _, some .openList               =>
        collection
          ((insideItems? fuel true opened.drop).map fun (items, rest) => (.list items, rest))
      | _, some .openTable              =>
        collection
          ((insideEntries? fuel true opened.drop).map fun (entries, rest) => (.table entries, rest))
      | position, token                 =>
        if position ≠ .inside ∧ token = some .blockList then
          collection ((blockItems? fuel opened.drop).map fun (items, rest) => (.list items, rest))
        else if position ≠ .inside ∧ token = some .blockTable then
          collection
            ((blockEntries? fuel opened.drop).map fun (entries, rest) => (.table entries, rest))
        else if properties.anchor.isSome || properties.tag.isSome then
          let node := taggedScalar .plain properties.tag ""
          some (node, stream.bind properties.anchor node)
        else none

/-- The items of a block list up to its end. -/
def blockItems? : Nat → Stream → Option (List Node × Stream)
  | 0,        _      => none
  | fuel + 1, stream =>
    match stream.peek with
    | some .dash     => do
      let stream := stream.drop
      let (item, stream) ←
        if endsBlockItem stream.peek then some (emptyScalar, stream) else node? fuel .item stream
      let (items, stream) ← blockItems? fuel stream
      some (item :: items, stream)
    | some .blockEnd => some ([], stream.drop)
    | _              => none

/-- The items of a list under a key whose dashes stand at the level of the key. -/
def freeItems? : Nat → Stream → Option (List Node × Stream)
  | 0,        _      => none
  | fuel + 1, stream =>
    match stream.peek with
    | some .dash => do
      let stream := stream.drop
      let (item, stream) ←
        if endsBlockItem stream.peek || endsBlockMember stream.peek then some (emptyScalar, stream)
        else node? fuel .item stream
      let (items, stream) ← freeItems? fuel stream
      some (item :: items, stream)
    | _          => some ([], stream)

/-- The entries of a block table up to its end. -/
def blockEntries? : Nat → Stream → Option (List (Node × Node) × Stream)
  | 0,        _      => none
  | fuel + 1, stream =>
    match stream.peek with
    | some .key      => do
      let (key, stream) ← blockMember? fuel stream.drop
      let (value, stream) ←
        if stream.peek = some .value then blockMember? fuel stream.drop
        else some (emptyScalar, stream)
      let (entries, stream) ← blockEntries? fuel stream
      some ((key, value) :: entries, stream)
    | some .blockEnd => some ([], stream.drop)
    | _              => none

/-- A key or value in block style, which may be left empty. -/
def blockMember? : Nat → Stream → Option (Node × Stream)
  | 0,        _      => none
  | fuel + 1, stream =>
    if endsBlockMember stream.peek then some (emptyScalar, stream) else node? fuel .member stream

/-- The items of a list in brackets up to the closing one. A key makes an item a table of one
    entry. -/
def insideItems? : Nat → Bool → Stream → Option (List Node × Stream)
  | 0,        _,       _      => none
  | fuel + 1, isFirst, stream =>
    if stream.peek = some .closeList then some ([], stream.drop)
    else if !isFirst && stream.peek ≠ some .comma then none
    else
      let stream := if isFirst then stream else stream.drop
      match stream.peek with
      | some .closeList => some ([], stream.drop)
      | some .key       => do
        let stream := stream.drop
        let (key, stream) ←
          if endsInside false stream.peek || stream.peek = some .value then
            some (emptyScalar, stream.drop)
          else node? fuel .inside stream
        let (value, stream) ← insideValue? fuel false stream
        let (items, stream) ← insideItems? fuel false stream
        some (.table [(key, value)] :: items, stream)
      | _               => do
        let (item, stream) ← node? fuel .inside stream
        let (items, stream) ← insideItems? fuel false stream
        some (item :: items, stream)

/-- The entries of a table in braces up to the closing one. A key may lack its value. -/
def insideEntries? : Nat → Bool → Stream → Option (List (Node × Node) × Stream)
  | 0,        _,       _      => none
  | fuel + 1, isFirst, stream =>
    if stream.peek = some .closeTable then some ([], stream.drop)
    else if !isFirst && stream.peek ≠ some .comma then none
    else
      let stream := if isFirst then stream else stream.drop
      match stream.peek with
      | some .closeTable => some ([], stream.drop)
      | some .key        => do
        let stream := stream.drop
        let (key, stream) ←
          if endsInside true stream.peek || stream.peek = some .value then
            some (emptyScalar, stream)
          else node? fuel .inside stream
        let (value, stream) ← insideValue? fuel true stream
        let (entries, stream) ← insideEntries? fuel false stream
        some ((key, value) :: entries, stream)
      | _                => do
        let (key, stream) ← node? fuel .inside stream
        let (entries, stream) ← insideEntries? fuel false stream
        some ((key, emptyScalar) :: entries, stream)

/-- The value after a key between brackets, which may be left out. -/
def insideValue? : Nat → Bool → Stream → Option (Node × Stream)
  | 0,        _,       _      => none
  | fuel + 1, isTable, stream =>
    if stream.peek = some .value then
      let stream := stream.drop
      if endsInside isTable stream.peek then some (emptyScalar, stream)
      else node? fuel .inside stream
    else some (emptyScalar, stream)

end

/-! ## Documents -/

mutual

/-- A node with everything that is nested deeper than a limit made unreadable. -/
def limitDepth : Nat → Node → Node
  | 0,         .list _        => .scalar .unreadable
  | depth + 1, .list items    => .list (limitItems depth items)
  | 0,         .table _       => .scalar .unreadable
  | depth + 1, .table entries => .table (limitEntries depth entries)
  | _,         node           => node

/-- Limits the depth of items. -/
def limitItems (depth : Nat) : List Node → List Node
  | []            => []
  | item :: items => limitDepth depth item :: limitItems depth items

/-- Limits the depth of entries. -/
def limitEntries (depth : Nat) : List (Node × Node) → List (Node × Node)
  | []                      => []
  | (key, value) :: entries =>
    (limitDepth depth key, limitDepth depth value) :: limitEntries depth entries

end

/-- The greatest depth of nesting that can be used. -/
def depthLimit : Nat := 128

/-- The stream after the directives at its front. The version may be given once, and each handle
    declared once. -/
def directives? (hasVersion : Bool) (handles : List (String × String)) :
    List Token → Option Stream
  | .version major minor :: rest =>
    if hasVersion || major ≠ 1 || (minor ≠ 1 && minor ≠ 2) then none
    else directives? true handles rest
  | .handle name start :: rest   =>
    if (handles.lookup name).isSome then none
    else directives? hasVersion ((name, start) :: handles) rest
  | tokens                       =>
    if (hasVersion || !handles.isEmpty) && tokens.head? ≠ some .documentStart then none
    else some { tokens, handles }

/-- The node of a document, and what follows it. -/
def document? (tokens : List Token) : Option (Node × List Token) := do
  let stream ← directives? false [] tokens
  let fuel := 4 * tokens.length + 4
  let (node, stream) ←
    if stream.peek = some .documentStart then
      let stream := stream.drop
      if stream.tokens.isEmpty || stream.peek = some .documentEnd
          || stream.peek = some .documentStart then
        some (emptyScalar, stream)
      else node? fuel .item stream
    else node? fuel .item stream
  some (node, stream.tokens)

/-- The node that a YAML text stands for. -/
def read? (text : String) : Option Node := do
  let tokens ← tokens? text.toList
  let (node, rest) ← document? tokens
  if rest.all (· == .documentEnd) then some (limitDepth depthLimit node) else none

end SchemaForge.Document.Yaml
