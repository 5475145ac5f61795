import SchemaForge.Kind
import SchemaForge.Text.Quoted

/-!
# `SchemaForge.Zod.Expr` — validator expressions

A validator expression is a base constructor followed by a chain of method calls. Expressions are
built as data and written by `Expr.text`, so that what an expression means can be read off the data.
-/

namespace SchemaForge.Zod

/-! ## Base constructors -/

/-- A base constructor. -/
inductive Base where
  | string
  | number
  | boolean
  | date
  | unknown
  | never
  | enum (values : List String)
  | array (element : Base)

namespace Base

/-- The constructor of the elements of a collection. Only primitive kinds have one of their own. -/
def element : Kind → Base
  | .string        => string
  | .number        => number
  | .boolean       => boolean
  | .date          => date
  | .enum | .array => unknown

/-- The constructor for one of the given literals. Without literals, nothing is valid. -/
def oneOf : List String → Base
  | []     => never
  | values => enum values

def text : Base → String
  | string        => "z.string()"
  | number        => "z.number()"
  | boolean       => "z.boolean()"
  | date          => "z.date()"
  | unknown       => "z.unknown()"
  | never         => "z.never()"
  | enum values   => "z.enum([" ++ ", ".intercalate (values.map quote) ++ "])"
  | array element => "z.array(" ++ element.text ++ ")"

end Base

/-! ## Method calls -/

/-- A method call in a chain: the name of the method and the text of its argument. -/
structure Call where
  method : String
  argument : String := ""
deriving DecidableEq

namespace Call

def text (call : Call) : String := "." ++ call.method ++ "(" ++ call.argument ++ ")"

end Call

/-! ## Expressions -/

/-- A base constructor and the calls that follow it. -/
structure Expr where
  base : Base
  calls : List Call := []

namespace Expr

def text (expr : Expr) : String :=
  expr.base.text ++ String.join (expr.calls.map Call.text)

end Expr

end SchemaForge.Zod
