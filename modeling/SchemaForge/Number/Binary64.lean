/-!
# `SchemaForge.Number.Binary64` — double-precision numbers as exact data

A double-precision number is kept as its sign and the *rank* of its magnitude: the place of the
magnitude in the increasing list of all of them, which is also the lower 63 bits of its interchange
format. Ranks below `infinityRank` are finite, that rank is infinity, and those above it are not
numbers. Equality is decidable and tells `0` from `-0`.

## Contents
- **Units.** Every finite magnitude is a whole number of units of `2 ^ -1074`; `unitsOfRank` says
  how many, so that all arithmetic on magnitudes is arithmetic on `Nat`.
- **Rounding.** `rankOfRatio` takes a ratio of naturals to the rank of the nearest magnitude, a tie
  to the even one; `ofDecimal` reads a decimal through it.
-/

namespace SchemaForge

/-- A double-precision number: its sign and the rank of its magnitude. -/
structure Binary64 where
  negative : Bool
  rank : Nat
  rank_lt : rank < Nat.pow 2 63 := by decide
deriving DecidableEq

namespace Binary64

/-! ## Special values -/

/-- The rank of infinity; every smaller rank is finite and every larger one is not a number. -/
def infinityRank : Nat := 2047 * Nat.pow 2 52

def zero : Binary64 where
  negative := false
  rank := 0

/-- Infinity with the given sign. -/
def infinity (negative : Bool) : Binary64 where
  negative := negative
  rank := infinityRank

/-- The value that is not a number. -/
def nan : Binary64 where
  negative := false
  rank := infinityRank + Nat.pow 2 51

instance : Inhabited Binary64 := ⟨zero⟩

def isNaN (x : Binary64) : Bool := decide (infinityRank < x.rank)

def isInfinite (x : Binary64) : Bool := decide (x.rank = infinityRank)

def isFinite (x : Binary64) : Bool := decide (x.rank < infinityRank)

/-- The number whose interchange format is the given word. -/
def ofBits (bits : UInt64) : Binary64 where
  negative := decide (Nat.pow 2 63 ≤ bits.toNat)
  rank := bits.toNat % Nat.pow 2 63
  rank_lt := Nat.mod_lt _ (by decide)

/-! ## Magnitudes as whole numbers of units -/

/-- The binary scale of a rank: neighbouring magnitudes differ by `2 ^ scale` units. -/
def scale (rank : Nat) : Nat := rank / Nat.pow 2 52 - 1

/-- The significand of a rank, below `2 ^ 53`. -/
def significand (rank : Nat) : Nat :=
  if rank < Nat.pow 2 52 then rank else Nat.pow 2 52 + rank % Nat.pow 2 52

/-- How many units of `2 ^ -1074` the magnitude of a rank has. -/
def unitsOfRank (rank : Nat) : Nat := significand rank * Nat.pow 2 (scale rank)

/-- A rank is its scale and significand put together again. -/
theorem scale_mul_add_significand (rank : Nat) :
    scale rank * Nat.pow 2 52 + significand rank = rank := by
  have size : Nat.pow 2 52 = 4503599627370496 := rfl
  unfold scale significand
  rw [size]
  split <;> omega

/-! ## Rounding to the nearest magnitude -/

/-- The quotient rounded to the nearest whole number, a tie to the even one. -/
def roundDiv (num den : Nat) : Nat :=
  let quotient := num / den
  let twice := 2 * (num % den)
  if twice < den then quotient
  else if den < twice then quotient + 1
  else quotient + quotient % 2

/-- The rank of the magnitude nearest to `num / den`, a tie to the even significand. Ratios beyond
    the largest magnitude by half a step or more have the rank of infinity. -/
def rankOfRatio (num den : Nat) : Nat :=
  let units := num * Nat.pow 2 1074
  let scale := (units / den).log2 - 52
  min (scale * Nat.pow 2 52 + roundDiv units (den * Nat.pow 2 scale)) infinityRank

/-- The number nearest to `num / den`, with the given sign. -/
def ofRatio (negative : Bool) (num den : Nat) : Binary64 where
  negative := negative
  rank := rankOfRatio num den
  rank_lt := Nat.lt_of_le_of_lt (Nat.min_le_right _ _) (by decide)

/-- The number nearest to `coefficient * 10 ^ exponent`, with the given sign. Decimals of a size far
    outside the finite magnitudes are decided by the length of the coefficient, so that no enormous
    power of ten is formed. -/
def ofDecimal (negative : Bool) (coefficient : Nat) (exponent : Int) : Binary64 :=
  let length : Int := (Nat.toDigits 10 coefficient).length
  if coefficient = 0 then ofRatio negative 0 1
  else if 400 < exponent + length then infinity negative
  else if exponent + length < -400 then ofRatio negative 0 1
  else ofRatio negative (coefficient * Nat.pow 10 exponent.toNat) (Nat.pow 10 (-exponent).toNat)

/-- The number nearest to an integer. -/
def ofInt (n : Int) : Binary64 := ofDecimal (decide (n < 0)) n.natAbs 0

end Binary64

end SchemaForge
