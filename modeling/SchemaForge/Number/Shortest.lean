import SchemaForge.Number.Binary64

/-!
# `SchemaForge.Number.Shortest` — the fewest decimal digits that read back

A finite, nonzero magnitude is the nearest one to every real of an interval around it, ends included
exactly when its rank is even. Its *shortest decimal* is the point of the coarsest decimal grid that
meets the interval: of two such points the nearer one, and of two equally near ones the one that the
tie rule names. All comparisons are made on natural numbers.
-/

namespace SchemaForge

/-- The decimal `coefficient * 10 ^ exponent`. -/
structure Decimal where
  coefficient : Nat
  exponent : Int
deriving DecidableEq

/-- Which of two equally near neighbours is taken. -/
inductive Tie where
  | even
  | up
deriving DecidableEq

namespace Binary64

/-- The interval of reals that round to a magnitude, in half units of `2 ^ -1075`. -/
structure Interval where
  low : Nat
  high : Nat
  closed : Bool

namespace Interval

/-- The reals that round to the magnitude of a rank: up to the middle between it and either
    neighbour, the middles included when the rank is even. -/
def ofRank (rank : Nat) : Interval where
  low := unitsOfRank (rank - 1) + unitsOfRank rank
  high := unitsOfRank rank + unitsOfRank (rank + 1)
  closed := rank % 2 == 0

/-- Whether `num / den` half units lie in the interval. -/
def contains (interval : Interval) (num den : Nat) : Bool :=
  if interval.closed then interval.low * den ≤ num && num ≤ interval.high * den
  else interval.low * den < num && num < interval.high * den

end Interval

/-- The point of the grid of multiples of `10 ^ exponent` that stands for the magnitude of a rank,
    if the grid has a point that rounds to it. -/
def gridPoint? (tie : Tie) (rank : Nat) (exponent : Int) : Option Decimal :=
  let interval := Interval.ofRank rank
  let step := Nat.pow 10 exponent.toNat * Nat.pow 2 1075
  let den := Nat.pow 10 (-exponent).toNat
  let value := 2 * unitsOfRank rank * den
  let below := value / step
  let fitsBelow := interval.contains (below * step) den
  let fitsAbove := interval.contains ((below + 1) * step) den
  let gapBelow := value - below * step
  let gapAbove := (below + 1) * step - value
  let preferAbove :=
    decide (gapAbove < gapBelow) ||
      (gapAbove == gapBelow && (tie == .up || below % 2 == 1))
  if fitsAbove && (!fitsBelow || preferAbove) then some ⟨below + 1, exponent⟩
  else if fitsBelow then some ⟨below, exponent⟩
  else none

/-- The first grid with a point, from `10 ^ (steps - 324)` down to `10 ^ -324`. -/
def coarsestPoint (tie : Tie) (rank : Nat) : Nat → Decimal
  | 0         => (gridPoint? tie rank (-324)).getD ⟨0, 0⟩
  | steps + 1 =>
    match gridPoint? tie rank ((steps : Int) + 1 - 324) with
    | some point => point
    | none       => coarsestPoint tie rank steps

/-- The shortest decimal that rounds to the magnitude of a rank. -/
def shortest (tie : Tie) (rank : Nat) : Decimal := coarsestPoint tie rank 633

end Binary64

end SchemaForge
