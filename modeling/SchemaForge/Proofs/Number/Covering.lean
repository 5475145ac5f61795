import Mathlib.Algebra.Order.Field.Power
import Mathlib.Algebra.Order.Ring.Rat
import Mathlib.Tactic.FieldSimp
import Mathlib.Tactic.Positivity
import SchemaForge.Proofs.Number.Shortest

/-!
# `Proofs.Number.Covering` — the rational numbers that round to a magnitude

Every magnitude covers the rational numbers between the middles to its neighbours, the middles
included when its rank is even. Seen this way the intervals are convex and lie one after the other,
so rounding keeps the order; and reading a decimal gives a number exactly if the magnitude of the
number covers the value of the decimal.

## Contents
- **Values.** `Decimal.value` and `magnitude`, as rational numbers.
- **Covering.** `Covers`, `Covers.between` and `Covers.rank_le`.
- **Decimals.** `isPointOf_iff_covers`, and `ofDecimal_eq_iff` for what is read.
-/

namespace SchemaForge

/-- The rational number that a decimal stands for. -/
def Decimal.value (decimal : Decimal) : ℚ := decimal.coefficient * 10 ^ decimal.exponent

namespace Binary64

/-! ## Values -/

/-- The magnitude of a rank as a rational number. -/
def magnitude (rank : Nat) : ℚ := unitsOfRank rank / unitsOfOne

/-- The middle between a magnitude and the one before it. -/
def lowerEnd (rank : Nat) : ℚ :=
  ((unitsOfRank (rank - 1) + unitsOfRank rank : Nat) : ℚ) / (2 * unitsOfOne)

/-- The middle between a magnitude and the one after it. -/
def upperEnd (rank : Nat) : ℚ :=
  ((unitsOfRank rank + unitsOfRank (rank + 1) : Nat) : ℚ) / (2 * unitsOfOne)

theorem cast_unitsOfOne_pos : (0 : ℚ) < unitsOfOne := Nat.cast_pos.mpr unitsOfOne_pos

theorem cast_pow_10 (n : Nat) : ((Nat.pow 10 n : Nat) : ℚ) = 10 ^ n := Nat.cast_pow 10 n

/-- The value of a decimal as a ratio without negative exponents. -/
theorem value_mul_pow (decimal : Decimal) :
    decimal.value * 10 ^ (-decimal.exponent).toNat
      = decimal.coefficient * 10 ^ decimal.exponent.toNat := by
  unfold Decimal.value
  rw [mul_assoc, ← zpow_natCast, ← zpow_add₀ (by norm_num), ← zpow_natCast]
  congr 2
  omega

theorem upperEnd_strictMono : StrictMono upperEnd := by
  refine strictMono_nat_of_lt_succ fun rank => ?_
  have hfirst := unitsOfRank_lt_succ rank
  have hsecond := unitsOfRank_lt_succ (rank + 1)
  unfold upperEnd
  refine div_lt_div_of_pos_right ?_ (mul_pos two_pos cast_unitsOfOne_pos)
  exact_mod_cast (by omega : unitsOfRank rank + unitsOfRank (rank + 1)
    < unitsOfRank (rank + 1) + unitsOfRank (rank + 1 + 1))

theorem lowerEnd_succ (rank : Nat) : lowerEnd (rank + 1) = upperEnd rank := rfl

theorem magnitude_lt_upperEnd (rank : Nat) : magnitude rank < upperEnd rank := by
  have hnext := unitsOfRank_lt_succ rank
  unfold magnitude upperEnd
  rw [div_lt_div_iff₀ cast_unitsOfOne_pos (mul_pos two_pos cast_unitsOfOne_pos), ← mul_assoc]
  refine mul_lt_mul_of_pos_right ?_ cast_unitsOfOne_pos
  exact_mod_cast (by omega : unitsOfRank rank * 2 < unitsOfRank rank + unitsOfRank (rank + 1))

/-! ## Covering -/

/-- Whether a rational number rounds to the magnitude of a rank. -/
structure Covers (rank : Nat) (number : ℚ) : Prop where
  low : lowerEnd rank ≤ number
  high : number ≤ upperEnd rank
  /-- The middles belong to the neighbours of an odd rank. -/
  inside : rank % 2 = 1 → lowerEnd rank < number ∧ number < upperEnd rank

variable {rank other : Nat} {a b c : ℚ}

/-- **What lies between two numbers of an interval lies in it.** -/
theorem Covers.between (ha : Covers rank a) (hb : Covers rank b) (hac : a ≤ c) (hcb : c ≤ b) :
    Covers rank c where
  low := ha.low.trans hac
  high := hcb.trans hb.high
  inside := fun hodd => ⟨(ha.inside hodd).1.trans_le hac, hcb.trans_lt (hb.inside hodd).2⟩

/-- **Rounding keeps the order.** -/
theorem Covers.rank_le (ha : Covers rank a) (hb : Covers other b) (hab : a ≤ b) : rank ≤ other := by
  by_contra hless
  obtain ⟨previous, rfl⟩ : ∃ previous, rank = previous + 1 := ⟨rank - 1, by omega⟩
  have hle : other ≤ previous := by omega
  have hends : upperEnd other ≤ upperEnd previous := upperEnd_strictMono.monotone hle
  -- both numbers would be the one middle between neighbours, which only the even one covers
  have hlow : upperEnd previous ≤ a := lowerEnd_succ previous ▸ ha.low
  have hhigh : b ≤ upperEnd other := hb.high
  have hsame : other = previous :=
    upperEnd_strictMono.injective (le_antisymm hends (hlow.trans (hab.trans hhigh)))
  subst hsame
  rcases Nat.mod_two_eq_zero_or_one other with heven | hodd
  · have hstrict := (ha.inside (by omega)).1
    rw [lowerEnd_succ] at hstrict
    exact absurd (hstrict.trans_le (hab.trans hhigh)) (lt_irrefl _)
  · exact absurd ((hb.inside hodd).2.trans_le (hlow.trans hab)) (lt_irrefl _)

/-! ## Decimals -/

/-- Comparing a whole number of half units with a ratio. -/
theorem div_le_value_iff (decimal : Decimal) (ends : Nat) :
    (ends : ℚ) / (2 * unitsOfOne) ≤ decimal.value ↔
      ends * Nat.pow 10 (-decimal.exponent).toNat
        ≤ decimal.coefficient * (Nat.pow 10 decimal.exponent.toNat * (2 * unitsOfOne)) := by
  have hpow : (0 : ℚ) < 10 ^ (-decimal.exponent).toNat := by positivity
  rw [div_le_iff₀ (mul_pos two_pos cast_unitsOfOne_pos), ← mul_le_mul_iff_left₀ hpow,
    mul_right_comm, value_mul_pow, ← Nat.cast_le (α := ℚ)]
  push_cast [cast_pow_10]
  rw [mul_assoc]

theorem value_le_div_iff (decimal : Decimal) (ends : Nat) :
    decimal.value ≤ (ends : ℚ) / (2 * unitsOfOne) ↔
      decimal.coefficient * (Nat.pow 10 decimal.exponent.toNat * (2 * unitsOfOne))
        ≤ ends * Nat.pow 10 (-decimal.exponent).toNat := by
  have hpow : (0 : ℚ) < 10 ^ (-decimal.exponent).toNat := by positivity
  rw [le_div_iff₀ (mul_pos two_pos cast_unitsOfOne_pos), ← mul_le_mul_iff_left₀ hpow,
    mul_right_comm, value_mul_pow, ← Nat.cast_le (α := ℚ)]
  push_cast [cast_pow_10]
  rw [mul_assoc]

/-- **The points of an interval are the decimals that its magnitude covers.** -/
theorem isPointOf_iff_covers (point : Decimal) :
    IsPointOf rank point ↔ Covers rank point.value := by
  have hlow := div_le_value_iff point (unitsOfRank (rank - 1) + unitsOfRank rank)
  have hhigh := value_le_div_iff point (unitsOfRank rank + unitsOfRank (rank + 1))
  have hlow' := value_le_div_iff point (unitsOfRank (rank - 1) + unitsOfRank rank)
  have hhigh' := div_le_value_iff point (unitsOfRank rank + unitsOfRank (rank + 1))
  unfold IsPointOf Interval.contains Interval.ofRank
  dsimp only
  rcases Nat.mod_two_eq_zero_or_one rank with heven | hodd
  · rw [heven, if_pos (by decide), Bool.and_eq_true, decide_eq_true_eq, decide_eq_true_eq]
    constructor
    · rintro ⟨hleft, hright⟩
      exact ⟨hlow.mpr hleft, hhigh.mpr hright, fun hodd => by omega⟩
    · intro h
      exact ⟨hlow.mp h.low, hhigh.mp h.high⟩
  · rw [hodd, if_neg (by decide), Bool.and_eq_true, decide_eq_true_eq, decide_eq_true_eq]
    rw [← not_le, ← hlow', ← not_le, ← hhigh', not_le, not_le]
    constructor
    · rintro ⟨hleft, hright⟩
      exact ⟨hleft.le, hright.le, fun _ => ⟨hleft, hright⟩⟩
    · intro h
      exact h.inside hodd

/-- A ratio of the rank of a magnitude lies in its interval. -/
theorem contains_of_rankOfRatio {num den : Nat} (hpos : 0 < rank) (hrank : rank < infinityRank)
    (hden : 0 < den) (h : rankOfRatio num den = rank) :
    (Interval.ofRank rank).contains (2 * (num * unitsOfOne)) den = true := by
  obtain ⟨previous, rfl⟩ : ∃ previous, rank = previous + 1 := ⟨rank - 1, by omega⟩
  have hlow : (Interval.ofRank (previous + 1)).low = middle previous := rfl
  have hhigh : (Interval.ofRank (previous + 1)).high = middle (previous + 1) := rfl
  have hclosed : (Interval.ofRank (previous + 1)).closed = ((previous + 1) % 2 == 0) := rfl
  have hle := (rankOfRatio_le_iff num hden hrank).mp h.le
  have hge := (rankOfRatio_le_iff num hden (Nat.lt_of_succ_lt hrank)).not.mp (by omega)
  unfold Interval.contains
  rw [hlow, hhigh, hclosed]
  generalize 2 * (num * unitsOfOne) = halves at hle hge ⊢
  split
  · next heven =>
      rw [beq_iff_eq] at heven
      rw [Bool.and_eq_true, decide_eq_true_eq, decide_eq_true_eq]
      omega
  · next hodd =>
      rw [beq_iff_eq] at hodd
      rw [Bool.and_eq_true, decide_eq_true_eq, decide_eq_true_eq]
      omega

/-- **What a decimal is read as**: the number with its sign whose magnitude covers it. -/
theorem ofDecimal_eq_iff {x : Binary64} (hzero : x.rank ≠ 0) (hfinite : x.isFinite = true)
    (coefficient : Nat) (exponent : Int) :
    ofDecimal x.negative coefficient exponent = x ↔
      Covers x.rank (Decimal.value ⟨coefficient, exponent⟩) := by
  rw [← isPointOf_iff_covers]
  constructor
  · intro h
    have hrank : rankOfRatio (coefficient * Nat.pow 10 exponent.toNat)
        (Nat.pow 10 (-exponent).toNat) = x.rank := by
      rw [ofDecimal_eq_ofRatio] at h
      exact congrArg Binary64.rank h
    have hcontains := contains_of_rankOfRatio (Nat.pos_of_ne_zero hzero)
      (of_decide_eq_true hfinite) (pow_10_pos _) hrank
    unfold IsPointOf
    rw [Nat.mul_assoc, Nat.mul_left_comm, Nat.mul_left_comm 2] at hcontains
    exact hcontains
  · intro h
    exact ofDecimal_of_isPointOf hzero hfinite h

end Binary64

end SchemaForge
