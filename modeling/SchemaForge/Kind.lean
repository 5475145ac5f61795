/-!
# `SchemaForge.Kind` — the six categories of a field

A field holds text, a number, a boolean, a date, one of a list of literals, or a collection. The
first four are *primitive*: only they keep their own type when they are the elements of a
collection.
-/

namespace SchemaForge

/-- The category of a field. -/
inductive Kind where
  | string
  | number
  | boolean
  | date
  | enum
  | array
deriving DecidableEq, Inhabited

namespace Kind

/-- Every kind, in the order in which they are listed. -/
def all : List Kind := [string, number, boolean, date, enum, array]

/-- The word that stands for the kind in a document. -/
def name : Kind → String
  | string  => "string"
  | number  => "number"
  | boolean => "boolean"
  | date    => "date"
  | enum    => "enum"
  | array   => "array"

/-- The kind that a word stands for. Case matters. -/
def ofName? : String → Option Kind
  | "string"  => some string
  | "number"  => some number
  | "boolean" => some boolean
  | "date"    => some date
  | "enum"    => some enum
  | "array"   => some array
  | _         => none

/-- Whether the kind can be the element of a collection without losing its type. -/
def isPrimitive : Kind → Bool
  | string | number | boolean | date => true
  | enum | array                     => false

/-- The place of the kind in `all`. -/
def index : Kind → Nat
  | string  => 0
  | number  => 1
  | boolean => 2
  | date    => 3
  | enum    => 4
  | array   => 5

theorem ofName?_name (k : Kind) : ofName? k.name = some k := by
  cases k <;> rfl

end Kind

end SchemaForge
