import Mathlib.Tactic.IntervalCases
import SchemaForge.Proofs.Number.Covering

/-!
# `Proofs.Number.Fewest` — no other decimal of a magnitude is shorter or nearer

The shortest decimal is the nearest point of the coarsest grid that has a point in the interval of its
magnitude. Any decimal with fewer digits, or with the same number of them on a finer grid, leaves a
power of ten between itself and the shortest one, and that power would be a point of a coarser grid.
So no decimal that reads as the same number has fewer digits, and none with as many is nearer.

## Contents
- **Grids.** `gridPoint?_cases`, what a grid gives, and `gridPoint?_of_covers`.
- **The coarsest grid.** `exponent_le_of_covers`: no decimal of the magnitude is on a coarser one.
- **Digits.** `HasDigits`, and `fewest_of_covers`.
- **Distance.** `nearest_of_covers`.
-/

namespace SchemaForge.Binary64

variable {tie : Tie} {rank : Nat} {exponent : Int}

/-! ## Grids -/

/-- A magnitude other than zero covers itself. -/
theorem covers_magnitude (hpos : 0 < rank) : Covers rank (magnitude rank) := by
  obtain ⟨previous, rfl⟩ : ∃ previous, rank = previous + 1 := ⟨rank - 1, by omega⟩
  have hlow : lowerEnd (previous + 1) < magnitude (previous + 1) := by
    have hbefore := unitsOfRank_lt_succ previous
    rw [lowerEnd_succ]
    unfold magnitude upperEnd
    rw [div_lt_div_iff₀ (mul_pos two_pos cast_unitsOfOne_pos) cast_unitsOfOne_pos, ← mul_assoc]
    refine mul_lt_mul_of_pos_right ?_ cast_unitsOfOne_pos
    exact_mod_cast (by omega : unitsOfRank previous + unitsOfRank (previous + 1)
      < unitsOfRank (previous + 1) * 2)
  have hhigh := magnitude_lt_upperEnd (previous + 1)
  exact ⟨hlow.le, hhigh.le, fun _ => ⟨hlow, hhigh⟩⟩

/-- By how much the points of a grid and the magnitudes are scaled to be compared as whole numbers. -/
def gridScale (exponent : Int) : ℚ := 10 ^ (-exponent).toNat * (2 * unitsOfOne)

theorem gridScale_pos (exponent : Int) : 0 < gridScale exponent :=
  mul_pos (by positivity) (mul_pos two_pos cast_unitsOfOne_pos)

theorem point_mul_gridScale (point : Nat) (exponent : Int) :
    point * 10 ^ exponent * gridScale exponent
      = (point * (Nat.pow 10 exponent.toNat * (2 * unitsOfOne)) : Nat) := by
  have hvalue := value_mul_pow ⟨point, exponent⟩
  unfold Decimal.value at hvalue
  dsimp only at hvalue
  unfold gridScale
  rw [← mul_assoc, hvalue]
  push_cast [cast_pow_10]
  ring

theorem magnitude_mul_gridScale (rank : Nat) (exponent : Int) :
    magnitude rank * gridScale exponent
      = (2 * unitsOfRank rank * Nat.pow 10 (-exponent).toNat : Nat) := by
  unfold magnitude gridScale
  push_cast [cast_pow_10]
  field_simp [cast_unitsOfOne_pos.ne']

/-- **What a grid gives**: of the two points around the magnitude those that it covers, and the nearer
    one if it covers both. -/
theorem gridPoint?_cases (tie : Tie) (rank : Nat) (exponent : Int) : ∃ below : Nat,
    (below * 10 ^ exponent ≤ magnitude rank ∧ magnitude rank < (below + 1 : Nat) * 10 ^ exponent) ∧
    ((gridPoint? tie rank exponent = some ⟨below + 1, exponent⟩ ∧
        Covers rank ((below + 1 : Nat) * 10 ^ exponent) ∧
        (Covers rank (below * 10 ^ exponent) →
          (below + 1 : Nat) * 10 ^ exponent - magnitude rank
            ≤ magnitude rank - below * 10 ^ exponent)) ∨
      (gridPoint? tie rank exponent = some ⟨below, exponent⟩ ∧
        Covers rank (below * 10 ^ exponent) ∧
        (Covers rank ((below + 1 : Nat) * 10 ^ exponent) →
          magnitude rank - below * 10 ^ exponent
            ≤ (below + 1 : Nat) * 10 ^ exponent - magnitude rank)) ∨
      (gridPoint? tie rank exponent = none ∧ ¬ Covers rank (below * 10 ^ exponent) ∧
        ¬ Covers rank ((below + 1 : Nat) * 10 ^ exponent))) := by
  have hcovers : ∀ point : Nat, (Interval.ofRank rank).contains
      (point * (Nat.pow 10 exponent.toNat * (2 * unitsOfOne))) (Nat.pow 10 (-exponent).toNat) = true
        ↔ Covers rank (point * 10 ^ exponent) := fun point => isPointOf_iff_covers ⟨point, exponent⟩
  have hstep : 0 < Nat.pow 10 exponent.toNat * (2 * unitsOfOne) :=
    Nat.mul_pos (pow_10_pos _) (Nat.mul_pos two_pos unitsOfOne_pos)
  have hscale := gridScale_pos exponent
  have hpoint := fun point => point_mul_gridScale point exponent
  have hmagnitude := magnitude_mul_gridScale rank exponent
  unfold gridPoint?
  rw [two_mul_unitsOfOne]
  dsimp only
  generalize Nat.pow 10 exponent.toNat * (2 * unitsOfOne) = step at hcovers hstep hpoint ⊢
  generalize 2 * unitsOfRank rank * Nat.pow 10 (-exponent).toNat = value at hmagnitude ⊢
  have hfloor : step * (value / step) + value % step = value := Nat.div_add_mod _ _
  have hrem : value % step < step := Nat.mod_lt _ hstep
  have hbelow : value / step * step ≤ value := by rw [Nat.mul_comm]; omega
  have habove : value < (value / step + 1) * step := by rw [Nat.add_mul, Nat.mul_comm]; omega
  generalize value / step = below at hbelow habove ⊢
  -- the whole gaps are the distances, scaled
  have hgap : (magnitude rank - below * 10 ^ exponent) * gridScale exponent
      = (value - below * step : Nat) := by
    rw [sub_mul, hpoint, hmagnitude, Nat.cast_sub hbelow]
  have hgap' : ((below + 1 : Nat) * 10 ^ exponent - magnitude rank) * gridScale exponent
      = ((below + 1) * step - value : Nat) := by
    rw [sub_mul, hpoint, hmagnitude, Nat.cast_sub habove.le]
  refine ⟨below, ⟨?_, ?_⟩, ?_⟩
  · rw [← mul_le_mul_iff_left₀ hscale, hpoint, hmagnitude]
    exact_mod_cast hbelow
  · rw [← mul_lt_mul_iff_left₀ hscale, hpoint, hmagnitude]
    exact_mod_cast habove
  · rw [← hcovers, ← hcovers]
    split
    · next hfits =>
        -- the point above, alone or as the nearer one
        rw [Bool.and_eq_true, Bool.or_eq_true, Bool.not_eq_true'] at hfits
        refine Or.inl ⟨rfl, hfits.1, fun hboth => ?_⟩
        have hprefer := hfits.2.resolve_left (by rw [hboth]; decide)
        rw [Bool.or_eq_true, decide_eq_true_eq, Bool.and_eq_true, beq_iff_eq] at hprefer
        rw [← mul_le_mul_iff_left₀ hscale, hgap, hgap', Nat.cast_le]
        omega
    · next hfits =>
        split
        · next hfitsBelow =>
            refine Or.inr (Or.inl ⟨rfl, hfitsBelow, fun hboth => ?_⟩)
            rw [hboth, hfitsBelow] at hfits
            simp only [Bool.not_true, Bool.false_or, Bool.true_and, Bool.or_eq_true,
              decide_eq_true_eq, not_or] at hfits
            rw [← mul_le_mul_iff_left₀ hscale, hgap, hgap', Nat.cast_le]
            omega
        · next hfitsBelow =>
            refine Or.inr (Or.inr ⟨rfl, hfitsBelow, fun hboth => hfits ?_⟩)
            rw [hboth, Bool.true_and, Bool.or_eq_true, Bool.not_eq_true']
            exact Or.inl (Bool.not_eq_true _ ▸ hfitsBelow)

/-- **A grid gives a point if the magnitude covers any of its points**, and none of these is
    nearer. -/
theorem gridPoint?_of_covers (tie : Tie) (hpos : 0 < rank) {point : Nat}
    (h : Covers rank (point * 10 ^ exponent)) :
    ∃ nearest, gridPoint? tie rank exponent = some nearest ∧
      |nearest.value - magnitude rank| ≤ |point * 10 ^ exponent - magnitude rank| := by
  obtain ⟨below, ⟨hbelow, habove⟩, hcases⟩ := gridPoint?_cases tie rank exponent
  have hself := covers_magnitude hpos
  have hpow : (0 : ℚ) < 10 ^ exponent := by positivity
  have hsize : |(below : ℚ) * 10 ^ exponent - magnitude rank|
      = magnitude rank - below * 10 ^ exponent := by rw [abs_sub_comm, abs_of_nonneg (by linarith)]
  have hsize' : |((below + 1 : Nat) : ℚ) * 10 ^ exponent - magnitude rank|
      = (below + 1 : Nat) * 10 ^ exponent - magnitude rank := abs_of_pos (by linarith)
  rcases Nat.lt_or_ge below point with hless | hmore
  · -- a point above the magnitude: the first one is between
    have hfirst : ((below + 1 : Nat) : ℚ) * 10 ^ exponent ≤ point * 10 ^ exponent :=
      mul_le_mul_of_nonneg_right (Nat.cast_le.mpr hless) hpow.le
    have hcovered := hself.between h habove.le hfirst
    rw [abs_of_pos (by linarith : (0 : ℚ) < point * 10 ^ exponent - magnitude rank)]
    rcases hcases with ⟨hpoint, -, -⟩ | ⟨hpoint, -, hnear⟩ | ⟨-, -, hnone⟩
    · refine ⟨_, hpoint, ?_⟩
      show |((below + 1 : Nat) : ℚ) * 10 ^ exponent - _| ≤ _
      rw [hsize']
      linarith
    · have := hnear hcovered
      refine ⟨_, hpoint, ?_⟩
      show |(below : ℚ) * 10 ^ exponent - _| ≤ _
      rw [hsize]
      linarith
    · exact absurd hcovered hnone
  · -- a point below it: the last one is between
    have hlast : (point : ℚ) * 10 ^ exponent ≤ below * 10 ^ exponent :=
      mul_le_mul_of_nonneg_right (Nat.cast_le.mpr hmore) hpow.le
    have hcovered := h.between hself hlast hbelow
    rw [abs_sub_comm, abs_of_nonneg (by linarith : 0 ≤ magnitude rank - point * 10 ^ exponent)]
    rcases hcases with ⟨hpoint, -, hnear⟩ | ⟨hpoint, -, -⟩ | ⟨-, hnone, -⟩
    · have := hnear hcovered
      refine ⟨_, hpoint, ?_⟩
      show |((below + 1 : Nat) : ℚ) * 10 ^ exponent - _| ≤ _
      rw [hsize']
      linarith
    · refine ⟨_, hpoint, ?_⟩
      show |(below : ℚ) * 10 ^ exponent - _| ≤ _
      rw [hsize]
      linarith
    · exact absurd hcovered hnone

/-! ## The coarsest grid -/

/-- The largest finite magnitude has three hundred and nine whole digits. -/
theorem upperEnd_lt (hrank : rank < infinityRank) (h : 309 ≤ exponent) :
    upperEnd rank < 10 ^ exponent := by
  obtain ⟨digits, rfl⟩ : ∃ digits : Nat, exponent = digits := ⟨exponent.toNat, by omega⟩
  have hlast := middle_last_lt (show 309 ≤ digits by omega)
  have hmono : upperEnd rank ≤ upperEnd (infinityRank - 1) :=
    upperEnd_strictMono.monotone (Nat.le_sub_one_of_lt hrank)
  refine hmono.trans_lt ?_
  have hend : upperEnd (infinityRank - 1) = (middle (infinityRank - 1) : ℚ) / (2 * unitsOfOne) := rfl
  rw [hend, div_lt_iff₀ (mul_pos two_pos cast_unitsOfOne_pos), zpow_natCast]
  calc (middle (infinityRank - 1) : ℚ)
      < (2 * (Nat.pow 10 digits * unitsOfOne) : Nat) := Nat.cast_lt.mpr hlast
    _ = 10 ^ digits * (2 * unitsOfOne) := by
        push_cast [cast_pow_10]
        ring

/-- No decimal of a magnitude other than zero is zero. -/
theorem Covers.point_pos (hpos : 0 < rank) {point : Nat} (h : Covers rank (point * 10 ^ exponent)) :
    0 < point :=
  IsPointOf.coefficient_pos (Nat.pos_iff_ne_zero.mp hpos)
    ((isPointOf_iff_covers ⟨point, exponent⟩).mpr h)

theorem coarsestPoint_coarsest (tie : Tie) (rank steps : Nat) :
    gridPoint? tie rank (coarsestPoint tie rank steps).exponent
        = some (coarsestPoint tie rank steps) ∧
      ∀ exponent, (coarsestPoint tie rank steps).exponent < exponent →
        exponent ≤ (steps : Int) - 324 → gridPoint? tie rank exponent = none := by
  induction steps with
  | zero =>
      obtain ⟨point, hpoint⟩ :=
        Option.ne_none_iff_exists'.mp (gridPoint?_ne_none tie rank (Int.le_refl (-324)))
      obtain ⟨hexponent, -⟩ := gridPoint?_spec hpoint
      unfold coarsestPoint
      rw [hpoint, Option.getD_some, hexponent]
      exact ⟨hpoint, fun exponent hless hle => by omega⟩
  | succ steps ih =>
      unfold coarsestPoint
      split
      · next point hpoint =>
          obtain ⟨hexponent, -⟩ := gridPoint?_spec hpoint
          rw [hexponent]
          exact ⟨hpoint, fun exponent hless hle => by omega⟩
      · next hnone =>
          refine ⟨ih.1, fun exponent hless hle => ?_⟩
          rcases lt_or_ge ((steps : Int) - 324) exponent with hlast | hearlier
          · obtain rfl : exponent = (steps : Int) + 1 - 324 := by omega
            exact hnone
          · exact ih.2 exponent hless hearlier

theorem gridPoint?_shortest (tie : Tie) (rank : Nat) :
    gridPoint? tie rank (shortest tie rank).exponent = some (shortest tie rank) :=
  (coarsestPoint_coarsest tie rank 633).1

/-- **No decimal of a magnitude is on a coarser grid** than the shortest one. -/
theorem exponent_le_of_covers (tie : Tie) (hpos : 0 < rank) (hrank : rank < infinityRank)
    {point : Nat} (h : Covers rank (point * 10 ^ exponent)) :
    exponent ≤ (shortest tie rank).exponent := by
  by_contra hcoarser
  obtain ⟨nearest, hnearest, -⟩ := gridPoint?_of_covers tie hpos h
  rcases lt_or_ge exponent 310 with hfinite | hlarge
  · have hnone := (coarsestPoint_coarsest tie rank 633).2 exponent (by
      change (shortest tie rank).exponent < exponent
      omega) (by omega)
    exact nomatch hnone.symm.trans hnearest
  · have hpow : (0 : ℚ) < 10 ^ exponent := by positivity
    have hone : (1 : ℚ) ≤ point := Nat.one_le_cast.mpr (h.point_pos hpos)
    have hend := upperEnd_lt hrank (show 309 ≤ exponent by omega)
    have hhigh := h.high
    nlinarith

/-! ## Digits -/

/-- Whether a number is written with so many digits. -/
structure HasDigits (number digits : Nat) : Prop where
  pos : 1 ≤ digits
  low : 10 ^ (digits - 1) ≤ number
  high : number < 10 ^ digits

theorem hasDigits_length_toDigits {number : Nat} (hpos : 0 < number) :
    HasDigits number (Nat.toDigits 10 number).length :=
  ⟨Nat.length_toDigits_pos, (length_toDigits_spec hpos).1, (length_toDigits_spec hpos).2⟩

theorem HasDigits.le_value {number digits : Nat} (h : HasDigits number digits) (exponent : Int) :
    (10 : ℚ) ^ (digits - 1 + exponent) ≤ number * 10 ^ exponent := by
  have hlow : ((10 ^ (digits - 1) : Nat) : ℚ) ≤ number := Nat.cast_le.mpr h.low
  rw [zpow_add₀ (by norm_num)]
  refine mul_le_mul_of_nonneg_right ?_ (by positivity)
  have hone := h.pos
  have hsub : (digits : Int) - 1 = (digits - 1 : Nat) := by omega
  rw [hsub, zpow_natCast]
  exact_mod_cast hlow

theorem HasDigits.value_lt {number digits : Nat} (h : HasDigits number digits) (exponent : Int) :
    number * 10 ^ exponent < (10 : ℚ) ^ (digits + exponent) := by
  have hhigh : (number : ℚ) < (10 ^ digits : Nat) := Nat.cast_lt.mpr h.high
  rw [zpow_add₀ (by norm_num)]
  refine mul_lt_mul_of_pos_right ?_ (by positivity)
  rw [zpow_natCast]
  exact_mod_cast hhigh

/-- A power of ten that is covered lies on a grid with a point. -/
theorem exponent_le_of_covers_pow (tie : Tie) (hpos : 0 < rank) (hrank : rank < infinityRank)
    (h : Covers rank (10 ^ exponent)) : exponent ≤ (shortest tie rank).exponent :=
  exponent_le_of_covers tie hpos hrank
    (show Covers rank ((1 : Nat) * 10 ^ exponent) by rwa [Nat.cast_one, one_mul])

theorem covers_shortest (tie : Tie) (rank : Nat) :
    Covers rank ((shortest tie rank).coefficient * 10 ^ (shortest tie rank).exponent) :=
  (isPointOf_iff_covers _).mp (shortest_mem tie rank).1

theorem hasDigits_shortest (tie : Tie) (hpos : 0 < rank) :
    HasDigits (shortest tie rank).coefficient
      (Nat.toDigits 10 (shortest tie rank).coefficient).length :=
  hasDigits_length_toDigits ((covers_shortest tie rank).point_pos hpos)

variable {point digits : Nat}

/-- Between a decimal of the magnitude that is below a power of ten and the shortest one, the power is
    covered too. -/
theorem covers_pow_between (tie : Tie) (hpos : 0 < rank) (h : Covers rank (point * 10 ^ exponent))
    (hdigits : HasDigits point digits)
    (hless : (digits : Int) + exponent
      ≤ (Nat.toDigits 10 (shortest tie rank).coefficient).length - 1
        + (shortest tie rank).exponent) :
    Covers rank (10 ^ (((Nat.toDigits 10 (shortest tie rank).coefficient).length : Int) - 1
      + (shortest tie rank).exponent)) :=
  h.between (covers_shortest tie rank)
    ((hdigits.value_lt exponent).le.trans (zpow_le_zpow_right₀ (by norm_num) hless))
    ((hasDigits_shortest tie hpos).le_value _)

/-- **No decimal of a magnitude has fewer digits than the shortest one.** -/
theorem fewest_of_covers (tie : Tie) (hpos : 0 < rank) (hrank : rank < infinityRank)
    (h : Covers rank (point * 10 ^ exponent)) (hdigits : HasDigits point digits) :
    (Nat.toDigits 10 (shortest tie rank).coefficient).length ≤ digits := by
  by_contra hfewer
  have hfiner := exponent_le_of_covers tie hpos hrank h
  have hpow := covers_pow_between tie hpos h hdigits (by omega)
  have hcoarse := exponent_le_of_covers_pow tie hpos hrank hpow
  have := hdigits.pos
  omega

/-! ## Distance -/

/-- From the tenth rank on an interval is narrower than a tenth of its upper end. -/
theorem interval_narrow (h : 10 ≤ rank) :
    9 * (unitsOfRank rank + unitsOfRank (rank + 1))
      < 10 * (unitsOfRank (rank - 1) + unitsOfRank rank) := by
  obtain ⟨previous, rfl⟩ : ∃ previous, rank = previous + 1 := ⟨rank - 1, by omega⟩
  have hscale : 2 ^ scale previous ≤ 2 ^ scale (previous + 1) := by
    refine Nat.pow_le_pow_right (by decide) ?_
    unfold scale
    exact Nat.sub_le_sub_right (Nat.div_le_div_right (Nat.le_succ previous)) 1
  have hsignificand : 10 ≤ significand (previous + 1) := by
    unfold significand
    rw [pow_52]
    split <;> omega
  have hbefore : unitsOfRank (previous + 1) = unitsOfRank previous + 2 ^ scale previous := by
    rw [unitsOfRank_succ, Nat.add_mul, Nat.one_mul]
    rfl
  have hafter : unitsOfRank (previous + 1 + 1)
      = unitsOfRank (previous + 1) + 2 ^ scale (previous + 1) := by
    rw [unitsOfRank_succ, Nat.add_mul, Nat.one_mul]
    rfl
  have hunits : 10 * 2 ^ scale (previous + 1) ≤ unitsOfRank (previous + 1) :=
    Nat.mul_le_mul_right _ hsignificand
  have hstep : 0 < 2 ^ scale (previous + 1) := Nat.two_pow_pos _
  rw [Nat.add_sub_cancel]
  generalize 2 ^ scale previous = step at hscale hbefore
  generalize 2 ^ scale (previous + 1) = next at hscale hafter hunits hstep
  omega

theorem unitsOfRank_of_le (h : rank ≤ 9) : unitsOfRank rank = rank := by
  interval_cases rank <;> decide

/-- How many units a power of ten has, up to a twentieth. -/
theorem pow_mul_unitsOfOne (exponent : Int) :
    2 * (10 : ℚ) ^ (exponent + 323) < 10 ^ exponent * unitsOfOne ∧
      10 ^ exponent * unitsOfOne ≤ 21 / 10 * (10 : ℚ) ^ (exponent + 323) := by
  -- the power of ten stays a variable: nothing but these two bounds is needed of it
  obtain ⟨digits, hdigits, hlow, hhigh⟩ : ∃ digits : Nat, (digits : Int) = 323 ∧
      2 * Nat.pow 10 digits < unitsOfOne ∧ 10 * unitsOfOne ≤ 21 * Nat.pow 10 digits := by
    unfold unitsOfOne
    exact ⟨323, rfl, by decide +kernel, by decide +kernel⟩
  have hlow' : 2 * (10 : ℚ) ^ digits < unitsOfOne := by
    rw [← cast_pow_10]
    exact_mod_cast hlow
  have hhigh' : 10 * (unitsOfOne : ℚ) ≤ 21 * 10 ^ digits := by
    rw [← cast_pow_10]
    exact_mod_cast hhigh
  have hpow : (0 : ℚ) < 10 ^ exponent := by positivity
  rw [← hdigits, zpow_add₀ (by norm_num), zpow_natCast]
  constructor
  · nlinarith
  · nlinarith

/-- An interval that is not so narrow is one of the first. -/
theorem rank_le_of_wide {power units : ℚ} (hle : units ≤ 9 / 10 * power)
    (hlow : ((unitsOfRank (rank - 1) + unitsOfRank rank : Nat) : ℚ) ≤ 2 * units)
    (hhigh : 2 * power ≤ ((unitsOfRank rank + unitsOfRank (rank + 1) : Nat) : ℚ)) : rank ≤ 9 := by
  by_contra hlarge
  have hnarrow := interval_narrow (show 10 ≤ rank by omega)
  have hcast := (Nat.cast_lt (α := ℚ)).mpr hnarrow
  rw [Nat.cast_mul, Nat.cast_mul, Nat.cast_ofNat, Nat.cast_ofNat] at hcast
  linarith

/-- Only one of the first magnitudes has a power of ten between itself and the middle after it, and
    the power is near to the magnitude. -/
theorem eq_two_of_pow_between (hpos : 0 < rank) (hsmall : rank ≤ 9)
    (hbelow : (rank : ℚ) < 10 ^ exponent * unitsOfOne)
    (hhigh : 2 * (10 ^ exponent * (unitsOfOne : ℚ)) ≤ 2 * rank + 1) :
    rank = 2 ∧ 10 ^ exponent * (unitsOfOne : ℚ) ≤ 21 / 10 := by
  obtain ⟨hmore, hless⟩ := pow_mul_unitsOfOne exponent
  have hrank : (rank : ℚ) ≤ 9 := by exact_mod_cast hsmall
  have hone : (1 : ℚ) ≤ rank := by exact_mod_cast hpos
  have hten : exponent = -323 := by
    rcases lt_trichotomy exponent (-323) with hsmaller | hexact | hlarger
    · have htenth : (10 : ℚ) ^ (exponent + 323) ≤ 10 ^ (-1 : Int) :=
        zpow_le_zpow_right₀ (by norm_num) (by omega)
      norm_num at htenth
      linarith
    · exact hexact
    · have hten : (10 : ℚ) ^ (1 : Int) ≤ 10 ^ (exponent + 323) :=
        zpow_le_zpow_right₀ (by norm_num) (by omega)
      norm_num at hten
      linarith
  subst hten
  rw [Int.add_left_neg, zpow_zero] at hmore hless
  have hupper : (rank : ℚ) < 3 := by linarith
  have hlower : (3 : ℚ) < 2 * rank := by linarith
  have hupper : rank < 3 := by exact_mod_cast hupper
  have hlower : 3 < 2 * rank := by exact_mod_cast hlower
  exact ⟨by omega, by linarith⟩

/-- If a magnitude is below a power of ten that it covers, no decimal up to nine tenths of the power
    is nearer. Only the second rank has such a power and such a decimal. -/
theorem near_of_magnitude_lt {decimal : ℚ} (hpos : 0 < rank)
    (hbelow : magnitude rank < 10 ^ exponent) (hpow : Covers rank (10 ^ exponent))
    (hdecimal : Covers rank decimal) (hle : decimal ≤ 9 / 10 * 10 ^ exponent) :
    10 ^ exponent - magnitude rank ≤ magnitude rank - decimal := by
  have hone := cast_unitsOfOne_pos
  -- everything in units
  have hlow := hdecimal.low
  have hhigh := hpow.high
  unfold lowerEnd at hlow
  unfold upperEnd at hhigh
  rw [div_le_iff₀ (by positivity), mul_left_comm] at hlow
  rw [le_div_iff₀ (by positivity), mul_left_comm] at hhigh
  have hle' : decimal * unitsOfOne ≤ 9 / 10 * (10 ^ exponent * unitsOfOne) := by
    rw [← mul_assoc]
    exact mul_le_mul_of_nonneg_right hle hone.le
  have hunits : (unitsOfRank rank : ℚ) < 10 ^ exponent * unitsOfOne := by
    rwa [magnitude, div_lt_iff₀ hone] at hbelow
  have hsmall := rank_le_of_wide hle' hlow hhigh
  have hnext : unitsOfRank (rank + 1) = rank + 1 := by interval_cases rank <;> rfl
  rw [unitsOfRank_of_le hsmall] at hunits hhigh
  rw [hnext] at hhigh
  push_cast at hhigh
  obtain ⟨rfl, hpower⟩ := eq_two_of_pow_between hpos hsmall hunits (by linarith)
  have htwo : ((unitsOfRank 2 : Nat) : ℚ) = 2 := rfl
  rw [← mul_le_mul_iff_left₀ hone, sub_mul, sub_mul, magnitude, div_mul_cancel₀ _ hone.ne', htwo]
  linarith

/-- **No decimal of a magnitude with as many digits as the shortest one is nearer.** -/
theorem nearest_of_covers (tie : Tie) (hpos : 0 < rank) (hrank : rank < infinityRank)
    (h : Covers rank (point * 10 ^ exponent))
    (hdigits : HasDigits point (Nat.toDigits 10 (shortest tie rank).coefficient).length) :
    |(shortest tie rank).value - magnitude rank| ≤ |point * 10 ^ exponent - magnitude rank| := by
  have hongrid : ∀ other : Nat, Covers rank (other * 10 ^ (shortest tie rank).exponent) →
      |(shortest tie rank).value - magnitude rank|
        ≤ |other * 10 ^ (shortest tie rank).exponent - magnitude rank| := fun other hother => by
    obtain ⟨nearest, hnearest, hle⟩ := gridPoint?_of_covers tie hpos hother
    obtain rfl := Option.some.inj ((gridPoint?_shortest tie rank).symm.trans hnearest)
    exact hle
  rcases (exponent_le_of_covers tie hpos hrank h).eq_or_lt with hsame | hfiner
  · rw [hsame] at h ⊢
    exact hongrid point h
  · -- on a finer grid a power of ten is between; it would be on a coarser one but for a single digit
    have hpow := covers_pow_between tie hpos h hdigits (by omega)
    have hcoarse := exponent_le_of_covers_pow tie hpos hrank hpow
    have hsingle : (Nat.toDigits 10 (shortest tie rank).coefficient).length = 1 := by
      have := hdigits.pos
      omega
    rw [hsingle] at hpow hdigits
    rw [Nat.cast_one, sub_self, zero_add] at hpow
    have hpoint : (1 : Nat) * (10 : ℚ) ^ (shortest tie rank).exponent
        = 10 ^ (shortest tie rank).exponent := by rw [Nat.cast_one, one_mul]
    have hnear := hongrid 1 (by rwa [hpoint])
    rw [hpoint] at hnear
    have hnine : (point : ℚ) * 10 ^ exponent ≤ 9 / 10 * 10 ^ (shortest tie rank).exponent := by
      have hdigit : (point : ℚ) ≤ 9 := by
        have := hdigits.high
        exact_mod_cast (by omega : point ≤ 9)
      have hstep : (10 : ℚ) ^ exponent * 10 ≤ 10 ^ (shortest tie rank).exponent := by
        rw [← zpow_add_one₀ (by norm_num)]
        exact zpow_le_zpow_right₀ (by norm_num) hfiner
      have hpower : (0 : ℚ) < 10 ^ exponent := by positivity
      nlinarith
    have hpower : (0 : ℚ) < 10 ^ (shortest tie rank).exponent := by positivity
    refine hnear.trans ?_
    rcases le_or_gt ((10 : ℚ) ^ (shortest tie rank).exponent) (magnitude rank) with habove | hbelow
    · rw [abs_of_nonpos (by linarith), abs_of_nonpos (by linarith)]
      linarith
    · have hless := near_of_magnitude_lt hpos hbelow hpow h hnine
      rw [abs_of_pos (by linarith), abs_of_nonpos (by linarith)]
      linarith

end SchemaForge.Binary64
