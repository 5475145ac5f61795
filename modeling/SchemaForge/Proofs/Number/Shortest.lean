import SchemaForge.Proofs.Number.Rounding

/-!
# `Proofs.Number.Shortest` — the shortest decimal reads back

The decimal that `shortest` finds lies in the interval of the rank it stands for, so reading it gives
the number back. Reading a decimal only depends on its value: the shortcuts that `ofDecimal` takes
for very large and very small decimals agree with rounding, and zeros that move from the coefficient
into the exponent change nothing.

## Contents
- **The finest grid.** `gridPoint?_finest`: some grid always has a point.
- **The shortest decimal.** `shortest_mem`, in the interval of its rank.
- **Shortcuts.** `ofDecimal_eq_ofRatio`, `ofDecimal_mul_pow`.
- **Reading back.** `ofDecimal_shortest`.
-/

namespace SchemaForge.Binary64

/-! ## Points of a grid -/

/-- Whether a decimal lies in the interval of a rank. -/
def IsPointOf (rank : Nat) (point : Decimal) : Prop :=
  (Interval.ofRank rank).contains
    (point.coefficient * (Nat.pow 10 point.exponent.toNat * (2 * unitsOfOne)))
    (Nat.pow 10 (-point.exponent).toNat) = true

theorem gridPoint?_spec {tie : Tie} {rank : Nat} {exponent : Int} {point : Decimal}
    (h : gridPoint? tie rank exponent = some point) :
    point.exponent = exponent ∧ IsPointOf rank point := by
  unfold gridPoint? at h
  rw [two_mul_unitsOfOne] at h
  dsimp only at h
  split at h
  · next hfits =>
      rw [Bool.and_eq_true] at hfits
      obtain rfl := Option.some.inj h
      exact ⟨rfl, hfits.1⟩
  · split at h
    · next hfits =>
        obtain rfl := Option.some.inj h
        exact ⟨rfl, hfits⟩
    · exact nomatch h

theorem unitsOfRank_lt_succ (rank : Nat) : unitsOfRank rank < unitsOfRank (rank + 1) := by
  rw [unitsOfRank_succ]
  show significand rank * 2 ^ scale rank < _
  exact Nat.mul_lt_mul_of_pos_right (Nat.lt_succ_self _) (Nat.two_pow_pos _)

theorem unitsOfRank_pred_le (rank : Nat) : unitsOfRank (rank - 1) ≤ unitsOfRank rank := by
  cases rank with
  | zero => exact Nat.le_refl _
  | succ rank => exact Nat.le_of_lt (unitsOfRank_lt_succ rank)

/-- The interval reaches past the magnitude by at least one unit of half size. -/
theorem contains_of_lt {rank num den : Nat} (hlow : 2 * unitsOfRank rank * den < num)
    (hhigh : num < 2 * unitsOfRank rank * den + den) :
    (Interval.ofRank rank).contains num den = true := by
  have hleft : (unitsOfRank (rank - 1) + unitsOfRank rank) * den ≤ 2 * unitsOfRank rank * den :=
    Nat.mul_le_mul_right den (by have := unitsOfRank_pred_le rank; omega)
  have hright : (2 * unitsOfRank rank + 1) * den
      ≤ (unitsOfRank rank + unitsOfRank (rank + 1)) * den :=
    Nat.mul_le_mul_right den (by have := unitsOfRank_lt_succ rank; omega)
  rw [Nat.add_mul, Nat.one_mul] at hright
  unfold Interval.contains Interval.ofRank
  dsimp only
  split
  · rw [Bool.and_eq_true, decide_eq_true_eq, decide_eq_true_eq]
    omega
  · rw [Bool.and_eq_true, decide_eq_true_eq, decide_eq_true_eq]
    omega

theorem pow_10_add (m n : Nat) : Nat.pow 10 (m + n) = Nat.pow 10 m * Nat.pow 10 n :=
  Nat.pow_add 10 m n

theorem pow_10_le {m n : Nat} (h : m ≤ n) : Nat.pow 10 m ≤ Nat.pow 10 n :=
  Nat.pow_le_pow_right (by decide) h

theorem pow_10_pos (n : Nat) : 0 < Nat.pow 10 n :=
  Nat.pow_pos (by decide)

theorem two_mul_unitsOfOne_lt {digits : Nat} (h : 324 ≤ digits) :
    2 * unitsOfOne < Nat.pow 10 digits := by
  refine Nat.lt_of_lt_of_le ?_ (pow_10_le h)
  unfold unitsOfOne
  decide +kernel

/-- **The finest grid has a point for every magnitude**: its steps are below the smallest interval,
    so the first point above the magnitude is near enough. -/
theorem gridPoint?_ne_none (tie : Tie) (rank : Nat) {exponent : Int} (hexponent : exponent ≤ -324) :
    gridPoint? tie rank exponent ≠ none := by
  have hwhole : Nat.pow 10 exponent.toNat = 1 := by
    rw [Int.toNat_eq_zero.mpr (by omega)]
  have hsmall : 2 * unitsOfOne < Nat.pow 10 (-exponent).toNat :=
    two_mul_unitsOfOne_lt (by omega)
  have hpos : 0 < 2 * unitsOfOne := Nat.mul_pos (by decide) unitsOfOne_pos
  unfold gridPoint?
  rw [two_mul_unitsOfOne, hwhole, Nat.one_mul]
  dsimp only
  -- from here on the step and the denominator of the grid are all that counts
  generalize 2 * unitsOfOne = step at hpos hsmall ⊢
  generalize Nat.pow 10 (-exponent).toNat = den at hsmall ⊢
  have hvalue : step * (2 * unitsOfRank rank * den / step)
      + 2 * unitsOfRank rank * den % step = 2 * unitsOfRank rank * den := Nat.div_add_mod _ _
  have hrem : 2 * unitsOfRank rank * den % step < step := Nat.mod_lt _ hpos
  have hnext : (2 * unitsOfRank rank * den / step + 1) * step
      = step * (2 * unitsOfRank rank * den / step) + step := by ring
  have habove : (Interval.ofRank rank).contains
      ((2 * unitsOfRank rank * den / step + 1) * step) den = true :=
    contains_of_lt (by omega) (by omega)
  rw [habove]
  split
  · exact Option.some_ne_none _
  · next hbelow =>
      rw [if_pos]
      · exact Option.some_ne_none _
      · by_contra hnot
        rw [Bool.not_eq_true] at hnot
        rw [hnot] at hbelow
        exact hbelow rfl

/-! ## The shortest decimal -/

theorem coarsestPoint_spec (tie : Tie) (rank steps : Nat) :
    IsPointOf rank (coarsestPoint tie rank steps) ∧
      -324 ≤ (coarsestPoint tie rank steps).exponent := by
  induction steps with
  | zero =>
      obtain ⟨point, hpoint⟩ := Option.ne_none_iff_exists'.mp (gridPoint?_ne_none tie rank (Int.le_refl _))
      obtain ⟨hexponent, hmem⟩ := gridPoint?_spec hpoint
      unfold coarsestPoint
      rw [hpoint]
      exact ⟨hmem, by rw [Option.getD_some, hexponent]⟩
  | succ steps ih =>
      unfold coarsestPoint
      split
      · next point hpoint =>
          obtain ⟨hexponent, hmem⟩ := gridPoint?_spec hpoint
          exact ⟨hmem, by omega⟩
      · exact ih

/-- **The shortest decimal lies in the interval of its rank**, and its exponent is that of the finest
    grid or larger. -/
theorem shortest_mem (tie : Tie) (rank : Nat) :
    IsPointOf rank (shortest tie rank) ∧ -324 ≤ (shortest tie rank).exponent :=
  coarsestPoint_spec tie rank 633

/-- A point in the interval of a magnitude other than zero is not zero. -/
theorem IsPointOf.coefficient_pos {rank : Nat} {point : Decimal} (hpos : rank ≠ 0)
    (h : IsPointOf rank point) : 0 < point.coefficient := by
  obtain ⟨previous, rfl⟩ := Nat.exists_eq_succ_of_ne_zero hpos
  have hlow : 0 < (Interval.ofRank (previous + 1)).low :=
    Nat.lt_of_le_of_lt (Nat.zero_le _)
      (Nat.lt_of_lt_of_le (unitsOfRank_lt_succ previous) (Nat.le_add_left _ _))
  have hscaled := Nat.mul_pos hlow (pow_10_pos (-point.exponent).toNat)
  refine Nat.pos_of_ne_zero fun hzero => ?_
  unfold IsPointOf Interval.contains at h
  rw [hzero, Nat.zero_mul] at h
  split at h
  · rw [Bool.and_eq_true, decide_eq_true_eq] at h
    exact absurd h.1 (Nat.not_le.mpr hscaled)
  · rw [Bool.and_eq_true, decide_eq_true_eq] at h
    exact absurd h.1 (Nat.not_lt_zero _)

/-! ## Shortcuts -/

theorem eq_of_rank_eq {x y : Binary64} (hsign : x.negative = y.negative) (hrank : x.rank = y.rank) :
    x = y := by
  cases x
  cases y
  cases hsign
  cases hrank
  rfl

theorem negative_ofRatio (negative : Bool) (num den : Nat) :
    (ofRatio negative num den).negative = negative := rfl

theorem rank_ofRatio (negative : Bool) (num den : Nat) :
    (ofRatio negative num den).rank = rankOfRatio num den := rfl

/-- A ratio below half a unit has the rank of zero. -/
theorem rankOfRatio_eq_zero {num den : Nat} (hden : 0 < den)
    (h : num * (2 * unitsOfOne) < den) : rankOfRatio num den = 0 := by
  have hmiddle : middle 0 = 1 := rfl
  have hle := (rankOfRatio_le_iff num (k := 0) hden (by decide)).mpr
  rw [hmiddle, Nat.one_mul] at hle
  rw [Nat.mul_left_comm] at h
  exact Nat.le_zero.mp (hle (Or.inl h))

theorem rankOfRatio_zero {den : Nat} (hden : 0 < den) : rankOfRatio 0 den = 0 := by
  apply rankOfRatio_eq_zero hden
  rwa [Nat.zero_mul]

theorem middle_last_lt {digits : Nat} (h : 309 ≤ digits) :
    middle (infinityRank - 1) < 2 * (Nat.pow 10 digits * unitsOfOne) := by
  obtain ⟨whole, hwhole, hlast⟩ : ∃ whole, whole ≤ 309 ∧
      middle (infinityRank - 1) < 2 * (Nat.pow 10 whole * unitsOfOne) := by
    refine ⟨309, by decide, ?_⟩
    unfold unitsOfOne
    decide +kernel
  have hpow : Nat.pow 10 whole ≤ Nat.pow 10 digits := pow_10_le (Nat.le_trans hwhole h)
  refine Nat.lt_of_lt_of_le hlast ?_
  exact Nat.mul_le_mul_left 2 (Nat.mul_le_mul_right unitsOfOne hpow)

/-- A ratio with more than four hundred whole digits has the rank of infinity. -/
theorem rankOfRatio_eq_infinityRank {num den digits : Nat} (hden : 0 < den) (hdigits : 400 ≤ digits)
    (h : Nat.pow 10 digits * den ≤ num) : rankOfRatio num den = infinityRank := by
  refine Nat.le_antisymm (rankOfRatio_le num den) (Nat.le_of_not_lt fun hless => ?_)
  have hlast : infinityRank - 1 < infinityRank := by decide
  have hle := (rankOfRatio_le_iff num hden hlast).mp (Nat.le_sub_one_of_lt hless)
  have hmiddle := middle_last_lt (Nat.le_trans (by decide) hdigits)
  have habove := Nat.mul_lt_mul_of_pos_right hmiddle hden
  have hnum : Nat.pow 10 digits * unitsOfOne * den ≤ num * unitsOfOne := by
    calc Nat.pow 10 digits * unitsOfOne * den = Nat.pow 10 digits * den * unitsOfOne := by ring
      _ ≤ num * unitsOfOne := Nat.mul_le_mul_right _ h
  rw [Nat.mul_assoc] at habove
  omega

/-- The number of digits tells the size of a number. -/
theorem length_toDigits_spec {n : Nat} (hpos : 0 < n) :
    Nat.pow 10 ((Nat.toDigits 10 n).length - 1) ≤ n ∧ n < Nat.pow 10 (Nat.toDigits 10 n).length := by
  have hlength : 0 < (Nat.toDigits 10 n).length := Nat.length_toDigits_pos
  refine ⟨?_, (Nat.length_toDigits_le_iff (by decide) hlength).mp (Nat.le_refl _)⟩
  by_contra hless
  rcases Nat.eq_zero_or_pos ((Nat.toDigits 10 n).length - 1) with hone | hmore
  · rw [hone] at hless
    have : Nat.pow 10 0 = 1 := rfl
    omega
  · have hle := (Nat.length_toDigits_le_iff (by decide) hmore).mpr (Nat.lt_of_not_le hless)
    omega

/-- **The shortcuts for very large and very small decimals agree with rounding.** -/
theorem ofDecimal_eq_ofRatio (negative : Bool) (coefficient : Nat) (exponent : Int) :
    ofDecimal negative coefficient exponent
      = ofRatio negative (coefficient * Nat.pow 10 exponent.toNat)
          (Nat.pow 10 (-exponent).toNat) := by
  have hden : 0 < Nat.pow 10 (-exponent).toNat := Nat.pow_pos (by decide)
  unfold ofDecimal
  dsimp only
  split
  · next hcoefficient =>   -- no digits
      refine eq_of_rank_eq rfl ?_
      show rankOfRatio 0 1 = rankOfRatio _ _
      rw [rankOfRatio_zero Nat.one_pos, hcoefficient, Nat.zero_mul, rankOfRatio_zero hden]
  · next hcoefficient =>
      obtain ⟨hlow, hhigh⟩ := length_toDigits_spec (Nat.pos_of_ne_zero hcoefficient)
      generalize (Nat.toDigits 10 coefficient).length = length at hlow hhigh ⊢
      split
      · next hlarge =>
          -- the first digit alone stands beyond the largest number
          refine eq_of_rank_eq rfl ?_
          have hdigits : 400 ≤ length - 1 + exponent.toNat - (-exponent).toNat := by omega
          refine (rankOfRatio_eq_infinityRank hden hdigits ?_).symm
          calc Nat.pow 10 (length - 1 + exponent.toNat - (-exponent).toNat)
                * Nat.pow 10 (-exponent).toNat
              = Nat.pow 10 (length - 1 + exponent.toNat) := by
                rw [← pow_10_add]
                congr 1
                omega
            _ = Nat.pow 10 (length - 1) * Nat.pow 10 exponent.toNat := pow_10_add _ _
            _ ≤ coefficient * Nat.pow 10 exponent.toNat := Nat.mul_le_mul_right _ hlow
      · split
        · next hsmall =>
            -- even with all digits nine it would be below half of the smallest number
            refine eq_of_rank_eq rfl ?_
            show rankOfRatio 0 1 = rankOfRatio _ _
            rw [rankOfRatio_zero Nat.one_pos]
            refine (rankOfRatio_eq_zero hden ?_).symm
            have htiny : coefficient * Nat.pow 10 exponent.toNat
                < Nat.pow 10 (length + exponent.toNat) := by
              rw [pow_10_add]
              exact Nat.mul_lt_mul_of_pos_right hhigh (Nat.pow_pos (by decide))
            have hunits := two_mul_unitsOfOne_lt
              (show 324 ≤ (-exponent).toNat - length - exponent.toNat by omega)
            calc coefficient * Nat.pow 10 exponent.toNat * (2 * unitsOfOne)
                < Nat.pow 10 (length + exponent.toNat)
                    * Nat.pow 10 ((-exponent).toNat - length - exponent.toNat) :=
                  Nat.mul_lt_mul'' htiny hunits
              _ = Nat.pow 10 (-exponent).toNat := by
                  rw [← pow_10_add]
                  congr 1
                  omega
        · rfl

/-- **Zeros may move from the coefficient into the exponent**: the decimal stays the same. -/
theorem ofDecimal_mul_pow (negative : Bool) (coefficient zeros : Nat) (exponent : Int) :
    ofDecimal negative (coefficient * Nat.pow 10 zeros) (exponent - zeros)
      = ofDecimal negative coefficient exponent := by
  rw [ofDecimal_eq_ofRatio, ofDecimal_eq_ofRatio]
  refine eq_of_rank_eq rfl ?_
  refine rankOfRatio_congr (Nat.pow_pos (by decide)) (Nat.pow_pos (by decide)) ?_
  rw [Nat.mul_assoc, Nat.mul_assoc, Nat.mul_assoc, ← pow_10_add, ← pow_10_add, ← pow_10_add]
  congr 2
  omega

/-! ## Reading back -/

theorem isFinite_iff (x : Binary64) :
    x.isFinite = true ↔ ¬ x.isNaN = true ∧ ¬ x.isInfinite = true := by
  unfold isFinite isNaN isInfinite
  rw [decide_eq_true_eq, decide_eq_true_eq, decide_eq_true_eq]
  omega

theorem IsPointOf.contains {rank : Nat} {point : Decimal} (h : IsPointOf rank point) :
    (Interval.ofRank rank).contains
      (2 * (point.coefficient * Nat.pow 10 point.exponent.toNat * unitsOfOne))
      (Nat.pow 10 (-point.exponent).toNat) = true := by
  have hunits : 2 * (point.coefficient * Nat.pow 10 point.exponent.toNat * unitsOfOne)
      = point.coefficient * (Nat.pow 10 point.exponent.toNat * (2 * unitsOfOne)) := by ring
  rw [hunits]
  exact h

/-- A zero is a number with its sign. -/
theorem ofDecimal_zero {x : Binary64} (h : x.rank = 0) (exponent : Int) :
    ofDecimal x.negative 0 exponent = x := by
  rw [ofDecimal_eq_ofRatio, Nat.zero_mul]
  refine eq_of_rank_eq (negative_ofRatio _ _ _) ?_
  rw [rank_ofRatio, rankOfRatio_zero (pow_10_pos _), h]

/-- A decimal in the interval of a number reads as that number. -/
theorem ofDecimal_of_isPointOf {x : Binary64} {point : Decimal} (hpos : x.rank ≠ 0)
    (hfinite : x.isFinite = true) (h : IsPointOf x.rank point) :
    ofDecimal x.negative point.coefficient point.exponent = x := by
  rw [ofDecimal_eq_ofRatio]
  refine eq_of_rank_eq (negative_ofRatio _ _ _) ?_
  rw [rank_ofRatio]
  exact rankOfRatio_of_contains (Nat.pos_of_ne_zero hpos) (of_decide_eq_true hfinite)
    (pow_10_pos _) h.contains

/-- **The shortest decimal of a finite number other than zero reads back.** -/
theorem ofDecimal_shortest (tie : Tie) {x : Binary64} (hpos : x.rank ≠ 0)
    (hfinite : x.isFinite = true) :
    ofDecimal x.negative (shortest tie x.rank).coefficient (shortest tie x.rank).exponent = x :=
  ofDecimal_of_isPointOf hpos hfinite (shortest_mem tie x.rank).1

end SchemaForge.Binary64
