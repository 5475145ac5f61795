import SchemaForge.Document.Json.Token

/-!
# `SchemaForge.Document.Json.Reader` — reading a JSON text

The reader turns tokens into a node. Lists and tables may be nested 127 deep; a part that is nested
deeper is unreadable. Repeated keys are kept, for the one who uses the table to judge.
-/

namespace SchemaForge.Document.Json

/-- The greatest depth of nesting that can be used. -/
def depthLimit : Nat := 127

/-- The scalar of a string. -/
def textScalar : Option String → Scalar
  | some text => .text text
  | none      => .unreadable

/-- A list or table at a depth, unreadable beyond the limit. -/
def limited (depth : Nat) (node : Node) : Node :=
  if depth ≤ depthLimit then node else .scalar .unreadable

mutual

/-- The node at the front of the tokens, inside `depth` lists and tables. -/
def value? : Nat → Nat → List Token → Option (Node × List Token)
  | 0,        _,     _      => none
  | fuel + 1, depth, tokens =>
    match tokens with
    | .scalar value :: rest             => some (.scalar value, rest)
    | .string text :: rest              => some (.scalar (textScalar text), rest)
    | .openList :: .closeList :: rest   => some (limited (depth + 1) (.list []), rest)
    | .openList :: rest                 => do
      let (items, after) ← items? fuel (depth + 1) rest
      some (limited (depth + 1) (.list items), after)
    | .openTable :: .closeTable :: rest => some (limited (depth + 1) (.table []), rest)
    | .openTable :: rest                => do
      let (entries, after) ← entries? fuel (depth + 1) rest
      some (limited (depth + 1) (.table entries), after)
    | _                                 => none

/-- The items of a list up to its closing bracket, one at least. -/
def items? : Nat → Nat → List Token → Option (List Node × List Token)
  | 0,        _,     _      => none
  | fuel + 1, depth, tokens => do
    let (item, rest) ← value? fuel depth tokens
    match rest with
    | .closeList :: after => some ([item], after)
    | .comma :: after     => do
      let (items, after) ← items? fuel depth after
      some (item :: items, after)
    | _                   => none

/-- The entries of a table up to its closing brace, one at least. -/
def entries? : Nat → Nat → List Token → Option (List (Node × Node) × List Token)
  | 0,        _,     _      => none
  | fuel + 1, depth, tokens =>
    match tokens with
    | .string key :: .colon :: rest => do
      let (value, rest) ← value? fuel depth rest
      match rest with
      | .closeTable :: after => some ([(.scalar (textScalar key), value)], after)
      | .comma :: after      => do
        let (entries, after) ← entries? fuel depth after
        some ((.scalar (textScalar key), value) :: entries, after)
      | _                    => none
    | _ => none

end

/-- The node that a JSON text stands for. -/
def read? (text : String) : Option Node := do
  let tokens ← tokens? text.toList
  match ← value? (2 * tokens.length + 1) 0 tokens with
  | (node, []) => some node
  | _          => none

end SchemaForge.Document.Json
