import SchemaForge.Field
import SchemaForge.Text.Quoted

/-!
# `SchemaForge.TypeScript.Ty` — static types

The static type of a field, as data and as text. Literal types are written as a union of string
literals; a collection has an element type and two brackets; null is the last member of a union.
-/

namespace SchemaForge.TypeScript

/-- A static type. -/
inductive Ty where
  | string
  | number
  | boolean
  | date
  | unknown
  | never
  | literals (values : List String)
  | array (element : Ty)
  | nullable (type : Ty)

namespace Ty

/-- The type of the elements of a collection. Only primitive kinds have one of their own. -/
def element : Kind → Ty
  | .string        => string
  | .number        => number
  | .boolean       => boolean
  | .date          => date
  | .enum | .array => unknown

/-- The union of the given literals. Without literals, no value has the type. -/
def oneOf : List String → Ty
  | []     => never
  | values => literals values

/-- The type that a rule record gives, whether or not null is allowed. -/
def ofRules : Rules → Ty
  | .string _      => string
  | .number _      => number
  | .boolean       => boolean
  | .date _        => date
  | .enum rules    => oneOf rules.values
  | .array rules _ => array (element rules.item)

/-- The type of a field. -/
def ofField (field : Field) : Ty :=
  if field.nullable then nullable (ofRules field.rules) else ofRules field.rules

def text : Ty → String
  | string          => "string"
  | number          => "number"
  | boolean         => "boolean"
  | date            => "Date"
  | unknown         => "unknown"
  | never           => "never"
  | literals values => " | ".intercalate (values.map quote)
  | array element   => element.text ++ "[]"
  | nullable type   => type.text ++ " | null"

end Ty

end SchemaForge.TypeScript
