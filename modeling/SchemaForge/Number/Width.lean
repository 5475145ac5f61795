/-!
# `SchemaForge.Number.Width` — integers of a fixed width

Which integers fit into a number of bits, signed or unsigned.
-/

namespace SchemaForge.Width

/-- Whether an integer fits into `bits + 1` bits with a sign. -/
def holdsSigned (bits : Nat) (n : Int) : Bool :=
  decide (-((Nat.pow 2 bits : Nat) : Int) ≤ n) && decide (n < ((Nat.pow 2 bits : Nat) : Int))

/-- Whether an integer fits into a number of bits without a sign. -/
def holdsUnsigned (bits : Nat) (n : Int) : Bool :=
  decide (0 ≤ n) && decide (n < ((Nat.pow 2 bits : Nat) : Int))

end SchemaForge.Width
