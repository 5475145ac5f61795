import Mathlib.Tactic.Linarith
import Mathlib.Tactic.Ring
import SchemaForge.Number.Shortest

/-!
# `Proofs.Number.Rounding` — rounding is decided by the middles between neighbours

The nearest magnitude to a ratio is at most a given one exactly when the ratio lies below the middle
between that magnitude and the next, or on it where the rule for ties goes down. All facts about
rounding used here follow from this one: a ratio in the interval of a rank has that rank, and equal
ratios have equal ranks.

## Contents
- **Neighbours.** `unitsOfRank_succ`, the distance to the next magnitude.
- **Quotients.** `roundDiv_le_iff`.
- **Ratios.** `rankOfRatio_le_iff`, `rankOfRatio_of_contains` and `rankOfRatio_mul`.
-/

namespace SchemaForge.Binary64

theorem pow_52 : Nat.pow 2 52 = 4503599627370496 := rfl

/-! ## Neighbours -/

/-- Two neighbouring magnitudes differ by one step of the scale of the smaller one. -/
theorem unitsOfRank_succ (rank : Nat) :
    unitsOfRank (rank + 1) = (significand rank + 1) * 2 ^ scale rank := by
  have hscale : ∀ n, scale n = n / 4503599627370496 - 1 := fun n => rfl
  have hsig : ∀ n, significand n
      = if n < 4503599627370496 then n else 4503599627370496 + n % 4503599627370496 := fun n => rfl
  show significand (rank + 1) * 2 ^ scale (rank + 1) = _
  by_cases hcarry : 4503599627370496 ≤ rank ∧ rank % 4503599627370496 = 4503599627370495
  · -- the significand is full: the next magnitude has the next scale
    have hnext : scale (rank + 1) = scale rank + 1 := by
      rw [hscale, hscale]
      omega
    have hone : significand (rank + 1) = 4503599627370496 := by
      rw [hsig, if_neg (by omega)]
      omega
    have hfull : significand rank + 1 = 4503599627370496 * 2 := by
      rw [hsig, if_neg (by omega)]
      omega
    rw [hnext, hone, hfull, Nat.pow_succ]
    ring
  · have hsame : scale (rank + 1) = scale rank := by
      rw [hscale, hscale]
      omega
    have hsucc : significand (rank + 1) = significand rank + 1 := by
      rw [hsig, hsig]
      split <;> split <;> omega
    rw [hsame, hsucc]

/-- The middle between a magnitude and the next one, in half units. -/
def middle (rank : Nat) : Nat := unitsOfRank rank + unitsOfRank (rank + 1)

theorem middle_eq (rank : Nat) : middle rank = (2 * significand rank + 1) * 2 ^ scale rank := by
  rw [middle, unitsOfRank_succ]
  show significand rank * 2 ^ scale rank + _ = _
  ring

theorem significand_lt (rank : Nat) : significand rank < 2 ^ 53 := by
  unfold significand
  rw [pow_52]
  split <;> omega

theorem le_significand_of_scale_pos {rank : Nat} (h : 0 < scale rank) :
    2 ^ 52 ≤ significand rank := by
  have hscale : scale rank = rank / 4503599627370496 - 1 := rfl
  unfold significand
  rw [pow_52, if_neg (by omega)]
  omega

/-- A rank is even exactly when its significand is. -/
theorem significand_mod_two (rank : Nat) : significand rank % 2 = rank % 2 := by
  unfold significand
  rw [pow_52]
  split <;> omega

/-! ## Quotients -/

/-- The rounded quotient is at most `j` exactly when the quotient is below `j + 1/2`, or on it for an
    even `j`. -/
theorem roundDiv_le_iff (num : Nat) {den : Nat} (hden : 0 < den) (j : Nat) :
    roundDiv num den ≤ j ↔
      2 * num < (2 * j + 1) * den ∨ (2 * num = (2 * j + 1) * den ∧ j % 2 = 0) := by
  have hsplit : num = den * (num / den) + num % den := (Nat.div_add_mod num den).symm
  have hrem : num % den < den := Nat.mod_lt _ hden
  have hbound : (2 * j + 1) * den = 2 * (den * j) + den := by ring
  unfold roundDiv
  dsimp only
  generalize num / den = quotient at hsplit ⊢
  generalize num % den = rem at hsplit hrem ⊢
  -- the remainder decides only where the whole quotient is `j` itself
  rcases Nat.lt_trichotomy quotient j with hlt | rfl | hgt
  · have hstep : den * quotient + den ≤ den * j := Nat.mul_le_mul_left den hlt
    constructor
    · intro _
      left
      omega
    · intro _
      split
      · omega
      · split <;> omega
  · split
    · omega
    · split <;> omega
  · have hstep : den * j + den ≤ den * quotient := Nat.mul_le_mul_left den hgt
    constructor
    · intro hle
      split at hle
      · omega
      · split at hle <;> omega
    · intro hle
      omega

/-! ## Ratios -/

/-- How far the significand is shifted for a ratio of units. -/
def ratioScale (units den : Nat) : Nat := (units / den).log2 - 52

/-- The rank of a ratio of units, before it is cut off at infinity. -/
def unboundedRank (units den : Nat) : Nat :=
  ratioScale units den * 2 ^ 52 + roundDiv units (den * 2 ^ ratioScale units den)

theorem units_lt (units : Nat) {den : Nat} (hden : 0 < den) :
    units < den * 2 ^ (ratioScale units den + 53) := by
  have hlog : units / den < 2 ^ ((units / den).log2 + 1) := Nat.lt_log2_self
  have hpow : 2 ^ ((units / den).log2 + 1) ≤ 2 ^ (ratioScale units den + 53) :=
    Nat.pow_le_pow_right (by decide) (by unfold ratioScale; omega)
  rw [Nat.mul_comm]
  exact (Nat.div_lt_iff_lt_mul hden).mp (Nat.lt_of_lt_of_le hlog hpow)

theorem le_units {units den : Nat} (h : 0 < ratioScale units den) :
    den * 2 ^ (ratioScale units den + 52) ≤ units := by
  have hlog : ratioScale units den + 52 = (units / den).log2 := by
    unfold ratioScale at h ⊢
    omega
  have hne : units / den ≠ 0 := by
    intro hzero
    rw [hzero] at hlog
    have hlog2 : Nat.log2 0 = 0 := rfl
    omega
  rw [hlog]
  calc den * 2 ^ (units / den).log2 ≤ den * (units / den) :=
        Nat.mul_le_mul_left den (Nat.log2_self_le hne)
    _ ≤ units := Nat.mul_div_le units den

/-- The rounded significand is below the next power of two, or that power itself. -/
theorem roundDiv_le_pow (units : Nat) {den : Nat} (hden : 0 < den) :
    roundDiv units (den * 2 ^ ratioScale units den) ≤ 2 ^ 53 := by
  have hpos : 0 < den * 2 ^ ratioScale units den := Nat.mul_pos hden (Nat.two_pow_pos _)
  have hlt := units_lt units hden
  rw [Nat.pow_add, ← Nat.mul_assoc] at hlt
  rw [roundDiv_le_iff units hpos]
  left
  generalize den * 2 ^ ratioScale units den = width at hpos hlt ⊢
  omega

/-- Above the smallest scale the significand is full. -/
theorem pow_le_roundDiv {units den : Nat} (hden : 0 < den) (h : 0 < ratioScale units den) :
    2 ^ 52 ≤ roundDiv units (den * 2 ^ ratioScale units den) := by
  have hpos : 0 < den * 2 ^ ratioScale units den := Nat.mul_pos hden (Nat.two_pow_pos _)
  have hle := le_units h
  rw [Nat.pow_add, ← Nat.mul_assoc] at hle
  obtain ⟨full, hfull⟩ : ∃ full : Nat, 2 ^ 52 = full + 1 := ⟨4503599627370495, rfl⟩
  rw [hfull] at hle ⊢
  refine Nat.lt_of_not_le fun hless => ?_
  have hbelow := (roundDiv_le_iff units hpos full).mp hless
  generalize den * 2 ^ ratioScale units den = width at hpos hle hbelow
  have hexpand : width * (full + 1) = full * width + width := by ring
  have hexpand' : (2 * full + 1) * width = 2 * (full * width) + width := by ring
  omega

/-- **Rounding is decided by the middles**: the rank of a ratio is at most `k` exactly when the ratio
    lies below the middle after `k`, or on it for an even `k`. -/
theorem unboundedRank_le_iff (units : Nat) {den : Nat} (hden : 0 < den) (k : Nat) :
    unboundedRank units den ≤ k ↔
      2 * units < middle k * den ∨ (2 * units = middle k * den ∧ k % 2 = 0) := by
  have hrank : scale k * 2 ^ 52 + significand k = k := scale_mul_add_significand k
  have hsig := significand_lt k
  have hround := roundDiv_le_pow units hden
  rw [middle_eq]
  rcases Nat.lt_trichotomy (scale k) (ratioScale units den) with hlt | heq | hgt
  · -- the ratio has a larger scale than `k`: it lies above the middle
    have hfull := pow_le_roundDiv hden (Nat.zero_lt_of_lt hlt)
    have hunits := le_units (Nat.zero_lt_of_lt hlt)
    have hpow : 2 ^ (scale k + 53) ≤ 2 ^ (ratioScale units den + 52) :=
      Nat.pow_le_pow_right (by decide) (by omega)
    have habove : (2 * significand k + 1) * 2 ^ scale k * den < 2 * units := by
      calc (2 * significand k + 1) * 2 ^ scale k * den
          < 2 ^ 54 * 2 ^ scale k * den := by
            refine Nat.mul_lt_mul_of_pos_right ?_ hden
            exact Nat.mul_lt_mul_of_pos_right (by omega) (Nat.two_pow_pos _)
        _ = 2 * (den * 2 ^ (scale k + 53)) := by rw [Nat.pow_add]; ring
        _ ≤ 2 * (den * 2 ^ (ratioScale units den + 52)) :=
            Nat.mul_le_mul_left 2 (Nat.mul_le_mul_left den hpow)
        _ ≤ 2 * units := Nat.mul_le_mul_left 2 hunits
    constructor
    · intro hle
      unfold unboundedRank at hle
      omega
    · intro hbelow
      omega
  · -- the same scale: the rounded quotient is compared with the significand of `k`
    have hwidth : 0 < den * 2 ^ scale k := Nat.mul_pos hden (Nat.two_pow_pos _)
    have hdiv := roundDiv_le_iff units hwidth (significand k)
    have hside : (2 * significand k + 1) * 2 ^ scale k * den
        = (2 * significand k + 1) * (den * 2 ^ scale k) := by ring
    rw [hside, ← significand_mod_two k, ← hdiv, unboundedRank, ← heq]
    omega
  · -- the ratio has a smaller scale than `k`: it lies below the middle
    have hfull := le_significand_of_scale_pos (Nat.zero_lt_of_lt hgt)
    have hunits := units_lt units hden
    have hpow : 2 ^ (ratioScale units den + 53) ≤ 2 ^ (scale k + 52) :=
      Nat.pow_le_pow_right (by decide) (by omega)
    have hbelow : 2 * units < (2 * significand k + 1) * 2 ^ scale k * den := by
      calc 2 * units < 2 * (den * 2 ^ (ratioScale units den + 53)) := by omega
        _ ≤ 2 * (den * 2 ^ (scale k + 52)) :=
            Nat.mul_le_mul_left 2 (Nat.mul_le_mul_left den hpow)
        _ = 2 ^ 53 * 2 ^ scale k * den := by rw [Nat.pow_add]; ring
        _ ≤ (2 * significand k + 1) * 2 ^ scale k * den := by
            refine Nat.mul_le_mul_right den (Nat.mul_le_mul_right _ ?_)
            omega
    constructor
    · intro _
      exact Or.inl hbelow
    · intro _
      unfold unboundedRank
      omega

/-- How many units one has. It stays folded: no proof needs the value of this power. -/
@[irreducible] def unitsOfOne : Nat := Nat.pow 2 1074

theorem unitsOfOne_pos : 0 < unitsOfOne := by
  unfold unitsOfOne
  apply Nat.two_pow_pos

theorem pow_of_eq_succ {m n : Nat} (h : m = n + 1) : Nat.pow 2 m = 2 * Nat.pow 2 n := by
  rw [h]
  exact Nat.pow_succ'

/-- One in half units. -/
theorem two_mul_unitsOfOne : Nat.pow 2 1075 = 2 * unitsOfOne := by
  unfold unitsOfOne
  apply pow_of_eq_succ
  rfl

theorem rankOfRatio_eq (num den : Nat) :
    rankOfRatio num den = min (unboundedRank (num * unitsOfOne) den) infinityRank := by
  have key : ∀ units, min (((units / den).log2 - 52) * Nat.pow 2 52
      + roundDiv units (den * Nat.pow 2 ((units / den).log2 - 52))) infinityRank
      = min (unboundedRank units den) infinityRank := fun _ => rfl
  unfold rankOfRatio unitsOfOne
  dsimp only
  apply key

/-- The rank of a ratio is at most a finite `k` exactly when the ratio lies below the middle after
    `k`, or on it for an even `k`. -/
theorem rankOfRatio_le_iff (num : Nat) {den k : Nat} (hden : 0 < den) (hk : k < infinityRank) :
    rankOfRatio num den ≤ k ↔
      2 * (num * unitsOfOne) < middle k * den ∨
        (2 * (num * unitsOfOne) = middle k * den ∧ k % 2 = 0) := by
  rw [← unboundedRank_le_iff _ hden, rankOfRatio_eq]
  generalize infinityRank = bound at hk ⊢
  omega

theorem rankOfRatio_le (num den : Nat) : rankOfRatio num den ≤ infinityRank := by
  rw [rankOfRatio_eq]
  exact Nat.min_le_right _ _

/-- **A ratio in the interval of a rank has that rank.** -/
theorem rankOfRatio_of_contains {rank num den : Nat} (hpos : 0 < rank) (hrank : rank < infinityRank)
    (hden : 0 < den)
    (h : (Interval.ofRank rank).contains (2 * (num * unitsOfOne)) den = true) :
    rankOfRatio num den = rank := by
  obtain ⟨previous, rfl⟩ : ∃ previous, rank = previous + 1 := ⟨rank - 1, by omega⟩
  have hlow : (Interval.ofRank (previous + 1)).low = middle previous := rfl
  have hhigh : (Interval.ofRank (previous + 1)).high = middle (previous + 1) := rfl
  have hclosed : (Interval.ofRank (previous + 1)).closed = ((previous + 1) % 2 == 0) := rfl
  unfold Interval.contains at h
  rw [hlow, hhigh, hclosed] at h
  have hle := rankOfRatio_le_iff num hden hrank
  have hge := rankOfRatio_le_iff num hden (Nat.lt_of_succ_lt hrank)
  generalize 2 * (num * unitsOfOne) = halves at h hle hge
  -- not above the rank by the upper middle, not below it by the lower one; an even rank has both
  refine Nat.le_antisymm (hle.mpr ?_) (Nat.lt_of_not_le fun hless => ?_)
  · split at h
    · simp only [beq_iff_eq, Bool.and_eq_true, decide_eq_true_eq] at *
      omega
    · simp only [Bool.and_eq_true, decide_eq_true_eq] at h
      exact Or.inl h.2
  · have hbelow := hge.mp hless
    split at h
    · simp only [beq_iff_eq, Bool.and_eq_true, decide_eq_true_eq] at *
      omega
    · simp only [Bool.and_eq_true, decide_eq_true_eq] at h
      omega

/-- A ratio keeps its place among the middles when it is written with another denominator. -/
theorem rankOfRatio_le_of_eq {num den num' den' k : Nat} (hden : 0 < den) (hden' : 0 < den')
    (h : num * den' = num' * den) (hk : k < infinityRank) (hle : rankOfRatio num den ≤ k) :
    rankOfRatio num' den' ≤ k := by
  rw [rankOfRatio_le_iff _ hden hk] at hle
  rw [rankOfRatio_le_iff _ hden' hk]
  generalize unitsOfOne = one at hle ⊢
  have hleft : 2 * (num' * one) * den = 2 * (num * one) * den' := by
    calc 2 * (num' * one) * den = 2 * (num' * den * one) := by ring
      _ = 2 * (num * one) * den' := by rw [← h]; ring
  have hright : middle k * den' * den = middle k * den * den' := by ring
  rcases hle with hlt | ⟨heq, heven⟩
  · left
    refine Nat.lt_of_mul_lt_mul_right (a := den) ?_
    rw [hleft, hright]
    exact Nat.mul_lt_mul_of_pos_right hlt hden'
  · right
    refine ⟨Nat.eq_of_mul_eq_mul_right hden ?_, heven⟩
    rw [hleft, hright, heq]

/-- **Equal ratios have equal ranks.** -/
theorem rankOfRatio_congr {num den num' den' : Nat} (hden : 0 < den) (hden' : 0 < den')
    (h : num * den' = num' * den) : rankOfRatio num den = rankOfRatio num' den' := by
  have hbound := rankOfRatio_le num den
  have hbound' := rankOfRatio_le num' den'
  have forth := fun k hk => rankOfRatio_le_of_eq hden hden' h (k := k) hk
  have back := fun k hk => rankOfRatio_le_of_eq hden' hden h.symm (k := k) hk
  rcases Nat.lt_or_ge (rankOfRatio num den) infinityRank with hfin | hinf
  · have hle := forth _ hfin (Nat.le_refl _)
    exact Nat.le_antisymm (back _ (Nat.lt_of_le_of_lt hle hfin) (Nat.le_refl _)) hle
  · rcases Nat.lt_or_ge (rankOfRatio num' den') infinityRank with hfin' | hinf'
    · have hle := back _ hfin' (Nat.le_refl _)
      exact Nat.le_antisymm hle (Nat.le_trans hbound' hinf)
    · exact Nat.le_antisymm (Nat.le_trans hbound hinf') (Nat.le_trans hbound' hinf)

end SchemaForge.Binary64
