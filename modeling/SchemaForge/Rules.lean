import SchemaForge.Kind
import SchemaForge.Number.Binary64

/-!
# `SchemaForge.Rules` — what a field asks of its values

One record of constraints per kind, and `Rules` as their sum: the constructor *is* the kind of the
field, so constraints can never belong to another kind than the field they are attached to. A rule
that is absent asks nothing.
-/

namespace SchemaForge

/-! ## The rule records -/

/-- Constraints on text. An exact `length` outranks `min` and `max`. -/
structure StringRules where
  min : Option UInt32 := none
  max : Option UInt32 := none
  length : Option UInt32 := none
  email : Bool := false
  url : Bool := false
  uuid : Bool := false
  cuid : Bool := false
  /-- The body of a regular expression, as it stands between two slashes. -/
  regex : Option String := none
  startsWith : Option String := none
  endsWith : Option String := none
  includes : Option String := none
  trim : Bool := false
  toLowerCase : Bool := false
  toUpperCase : Bool := false
deriving DecidableEq, Inhabited

/-- Constraints on numbers. The sign flags are independent of each other. -/
structure NumberRules where
  min : Option Binary64 := none
  max : Option Binary64 := none
  int : Bool := false
  positive : Bool := false
  negative : Bool := false
  nonpositive : Bool := false
  nonnegative : Bool := false
  multipleOf : Option Binary64 := none
  finite : Bool := false
deriving DecidableEq, Inhabited

/-- Bounds on dates, as the texts that a date is made from. -/
structure DateRules where
  min : Option String := none
  max : Option String := none
deriving DecidableEq, Inhabited

/-- The literals that are allowed, in order. -/
structure EnumRules where
  values : List String := []
deriving DecidableEq, Inhabited

/-- Constraints on a collection and the kind of its elements. `nonempty` outranks `length`, which
    outranks `min` and `max`. -/
structure ArrayRules where
  min : Option UInt32 := none
  max : Option UInt32 := none
  length : Option UInt32 := none
  nonempty : Bool := false
  item : Kind := .string
deriving DecidableEq, Inhabited

/-- The constraints on a field, whose constructor is the field's kind. A collection may also carry
    constraints for its elements; they are kept in documents and never emitted. -/
inductive Rules where
  | string (rules : StringRules)
  | number (rules : NumberRules)
  | boolean
  | date (rules : DateRules)
  | enum (rules : EnumRules)
  | array (rules : ArrayRules) (itemRules : Option Rules)

namespace Rules

/-! ## Kinds and empty records -/

def kind : Rules → Kind
  | string _  => .string
  | number _  => .number
  | boolean   => .boolean
  | date _    => .date
  | enum _    => .enum
  | array _ _ => .array

/-- The record of a kind that asks nothing. -/
def empty : Kind → Rules
  | .string  => string {}
  | .number  => number {}
  | .boolean => boolean
  | .date    => date {}
  | .enum    => enum {}
  | .array   => array {} none

instance : Inhabited Rules := ⟨empty default⟩

/-- One of the given literals. -/
def oneOf (values : List String) : Rules := enum { values }

/-- A collection of elements of the given kind. -/
def arrayOf (item : Kind) : Rules := array { item } none

@[simp] theorem kind_empty (k : Kind) : (empty k).kind = k := by
  cases k <;> rfl

@[simp] theorem kind_oneOf (values : List String) : (oneOf values).kind = .enum := rfl

@[simp] theorem kind_arrayOf (item : Kind) : (arrayOf item).kind = .array := rfl

end Rules

end SchemaForge
