import SchemaForge.Proofs.Number.Fewest
import SchemaForge.Proofs.Zod.Number

/-!
# `Proofs.Zod.Layout` — numbers are written as JavaScript writes them

JavaScript writes a number by a shortest decimal `0.d₁…dₖ * 10 ^ n` and chooses the layout by `n`. The
layout can as well be chosen by comparing the number itself with `1e-6` and `1e21`: both of these are
written by a single digit, so a number reaches one of them exactly when its shortest decimal does.

## Contents
- **Specification.** `IsShortestDecimal`, `layout`, `IsNumberText`.
- **Size.** `lt_pointOf_iff` and `positional_pointOf_iff`, the two criteria.
- **The text.** `isNumberText_text`.
- **By size.** `sizedText`, and `sizedText_eq_text`.
- **The whole.** `text_layout`.
-/

namespace SchemaForge.Zod

open Binary64

/-! ## Specification -/

/-- A decimal `digits * 10 ^ (point - length)` of so many digits reads as a number, none of fewer
    digits does, and none of as many digits that does is nearer. -/
structure IsShortestDecimal (x : Binary64) (number length : Nat) (point : Int) : Prop where
  digits : HasDigits number length
  reads : ofDecimal x.negative number (point - length) = x
  fewest : ∀ number' length' (exponent : Int), HasDigits number' length' →
    ofDecimal x.negative number' exponent = x → length ≤ length'
  nearest : ∀ number' (exponent : Int), HasDigits number' length →
    ofDecimal x.negative number' exponent = x →
      |Decimal.value ⟨number, point - length⟩ - magnitude x.rank|
        ≤ |Decimal.value ⟨number', exponent⟩ - magnitude x.rank|

/-- The digits in front of an exponent: a point follows the first one, if there are more. -/
def mantissa (digits : List Char) : List Char :=
  digits.take 1 ++ if 1 < digits.length then '.' :: digits.drop 1 else []

/-- The layout of the digits of a number `0.d₁…dₖ * 10 ^ point`. -/
def layout (digits : List Char) (point : Int) : List Char :=
  if (digits.length : Int) ≤ point ∧ point ≤ 21 then
    digits ++ List.replicate (point - digits.length).toNat '0'
  else if 0 < point ∧ point < digits.length then
    digits.take point.toNat ++ '.' :: digits.drop point.toNat
  else if -6 < point ∧ point ≤ 0 then
    '0' :: '.' :: (List.replicate (-point).toNat '0' ++ digits)
  else
    mantissa digits ++ 'e' ::
      (if point < 1 then '-' else '+') :: Nat.toDigits 10 (point - 1).natAbs

/-- What JavaScript writes for a number. -/
inductive IsNumberText (x : Binary64) : String → Prop where
  | nan (h : x.isNaN = true) : IsNumberText x "NaN"
  | infinity (h : x.isInfinite = true) (hsign : x.negative = false) : IsNumberText x "Infinity"
  | minusInfinity (h : x.isInfinite = true) (hsign : x.negative = true) :
      IsNumberText x "-Infinity"
  | zero (h : x.rank = 0) : IsNumberText x "0"
  | finite (hfinite : x.isFinite = true) (hzero : x.rank ≠ 0) {number length : Nat} {point : Int}
      (h : IsShortestDecimal x number length point) :
      IsNumberText x (String.ofList
        ((if x.negative then ['-'] else []) ++ layout (Nat.toDigits 10 number) point))

/-! ## The size of a number -/

variable {x : Binary64} {rank bound : Nat}

/-- The exponent `n` of the shortest decimal `0.d₁…dₖ * 10 ^ n` of a magnitude. -/
def pointOf (rank : Nat) : Int :=
  (Nat.toDigits 10 (shortest .up rank).coefficient).length + (shortest .up rank).exponent

/-- **A magnitude reaches a power of ten when its shortest decimal does**, if the power is itself the
    shortest decimal of a magnitude. -/
theorem lt_pointOf_iff {exponent : Int} (hbound : shortest .up bound = ⟨1, exponent⟩)
    (hpos : 0 < rank) : exponent < pointOf rank ↔ bound ≤ rank := by
  have hdigits := hasDigits_shortest .up hpos
  have hcovers := covers_shortest .up rank
  have hpower := covers_shortest .up bound
  rw [hbound] at hpower
  dsimp only at hpower
  rw [Nat.cast_one, one_mul] at hpower
  constructor
  · intro hless
    refine hpower.rank_le hcovers (le_trans ?_ (hdigits.le_value _))
    refine zpow_le_zpow_right₀ (by norm_num) ?_
    unfold pointOf at hless
    omega
  · intro hle
    by_contra hmore
    have hbelow : ((shortest .up rank).coefficient : ℚ) * 10 ^ (shortest .up rank).exponent
        < 10 ^ exponent :=
      (hdigits.value_lt _).trans_le (zpow_le_zpow_right₀ (by norm_num) (not_lt.mp hmore))
    -- below the power only its own magnitude could be left, and that is written as the power
    have hsame : rank = bound := le_antisymm (hcovers.rank_le hpower hbelow.le) hle
    rw [hsame, hbound] at hbelow
    dsimp only at hbelow
    rw [Nat.cast_one, one_mul] at hbelow
    exact lt_irrefl _ hbelow

/-- The magnitudes from which on numbers are written without an exponent, and with one again. -/
def positionalFrom : Nat := (ofDecimal false 1 (-6)).rank

def positionalUntil : Nat := (ofDecimal false 1 21).rank

theorem shortest_positionalFrom : shortest .up positionalFrom = ⟨1, -6⟩ := by
  decide +kernel

theorem shortest_positionalUntil : shortest .up positionalUntil = ⟨1, 21⟩ := by
  decide +kernel

/-- **Both criteria agree**: the exponent of the shortest decimal and the size of the number. -/
theorem positional_pointOf_iff (hpos : 0 < rank) :
    numberStyle.positional (pointOf rank) = true ↔
      positionalFrom ≤ rank ∧ rank < positionalUntil := by
  have hfrom := lt_pointOf_iff shortest_positionalFrom hpos
  have huntil := lt_pointOf_iff shortest_positionalUntil hpos
  have hpositional : numberStyle.positional (pointOf rank)
      = (decide (-6 < pointOf rank) && decide (pointOf rank ≤ 21)) := rfl
  rw [hpositional, Bool.and_eq_true, decide_eq_true_eq, decide_eq_true_eq, hfrom]
  exact and_congr_right' (by omega)

theorem pow_eq_mul_pow {m n k : Nat} (h : m = k + n) :
    Nat.pow 2 m = Nat.pow 2 k * Nat.pow 2 n := by
  rw [h]
  exact Nat.pow_add 2 k n

/-- From fifty-three binary digits on a magnitude is a whole number. -/
theorem exists_magnitude_eq (h : 1075 * Nat.pow 2 52 ≤ rank) :
    ∃ whole : Nat, magnitude rank = whole := by
  have hscale : 1074 ≤ scale rank :=
    Nat.le_sub_of_add_le ((Nat.le_div_iff_mul_le (Nat.two_pow_pos 52)).mpr h)
  have hpow : Nat.pow 2 (scale rank) = Nat.pow 2 (scale rank - 1074) * unitsOfOne := by
    unfold unitsOfOne
    apply pow_eq_mul_pow
    omega
  refine ⟨significand rank * Nat.pow 2 (scale rank - 1074), ?_⟩
  have hunits : unitsOfRank rank
      = significand rank * Nat.pow 2 (scale rank - 1074) * unitsOfOne := by
    rw [Nat.mul_assoc, ← hpow]
    rfl
  unfold magnitude
  rw [hunits, Nat.cast_mul, mul_div_cancel_right₀ _ cast_unitsOfOne_pos.ne']

/-- Beyond twenty-one digits a magnitude has none behind the point. -/
theorem length_le_pointOf (hpos : 0 < rank) (hrank : rank < infinityRank) (hlarge : 21 < pointOf rank) :
    ((Nat.toDigits 10 (shortest .up rank).coefficient).length : Int) ≤ pointOf rank := by
  have huntil := (lt_pointOf_iff shortest_positionalUntil hpos).mp hlarge
  obtain ⟨whole, hwhole⟩ := exists_magnitude_eq
    (le_trans (by decide +kernel : 1075 * Nat.pow 2 52 ≤ positionalUntil) huntil)
  have hcovers : Covers rank (whole * 10 ^ (0 : Int)) := by
    rw [zpow_zero, mul_one, ← hwhole]
    exact covers_magnitude hpos
  have hexponent := exponent_le_of_covers .up hpos hrank hcovers
  unfold pointOf
  omega

/-! ## The text -/

theorem isShortestDecimal_shortest (hzero : x.rank ≠ 0) (hfinite : x.isFinite = true) :
    IsShortestDecimal x (shortest .up x.rank).coefficient
      (Nat.toDigits 10 (shortest .up x.rank).coefficient).length (pointOf x.rank) := by
  have hpos := Nat.pos_of_ne_zero hzero
  have hrank : x.rank < infinityRank := of_decide_eq_true hfinite
  have hexponent : pointOf x.rank - (Nat.toDigits 10 (shortest .up x.rank).coefficient).length
      = (shortest .up x.rank).exponent := by
    unfold pointOf
    omega
  constructor
  case digits => exact hasDigits_shortest .up hpos
  case reads =>
    rw [hexponent]
    exact ofDecimal_shortest .up hzero hfinite
  case fewest =>
    intro number' length' exponent hdigits hreads
    exact fewest_of_covers .up hpos hrank ((ofDecimal_eq_iff hzero hfinite _ _).mp hreads) hdigits
  case nearest =>
    intro number' exponent hdigits hreads
    rw [hexponent]
    exact nearest_of_covers .up hpos hrank ((ofDecimal_eq_iff hzero hfinite _ _).mp hreads) hdigits

/-- The text of a finite number, without or with an exponent. -/
theorem text_of_finite {style : NumberStyle} (htie : style.tie = .up) (hzero : x.rank ≠ 0)
    (hfinite : x.isFinite = true) :
    style.text x = (if x.negative then "-" else "") ++
      if style.positional (pointOf x.rank) then
        style.positionalText (Nat.toDigits 10 (shortest .up x.rank).coefficient) (pointOf x.rank)
      else
        style.exponentText (Nat.toDigits 10 (shortest .up x.rank).coefficient) (pointOf x.rank) := by
  obtain ⟨hnan, hinf⟩ := x.isFinite_iff.mp hfinite
  unfold NumberStyle.text
  rw [if_neg hnan, if_neg hinf, if_neg hzero, htie]
  rfl

theorem toList_positionalText {digits : List Char} {point : Int} (hne : 0 < digits.length)
    (hless : -6 < point) (hmore : point ≤ 21) :
    (numberStyle.positionalText digits point).toList = layout digits point := by
  have hend : numberStyle.wholeEnd = "" := rfl
  unfold NumberStyle.positionalText layout
  split
  · next hnonpos =>
      rw [if_neg (by omega), if_neg (by omega), if_pos ⟨hless, hnonpos⟩, String.toList_append,
        String.toList_ofList, String.toList_ofList]
      rfl
  · next hnonpos =>
      split
      · next hwhole =>
          have hcount : point.toNat - digits.length = (point - digits.length).toNat := by omega
          rw [if_pos (by omega), hend, String.append_empty, String.toList_ofList, hcount]
      · next hwhole =>
          rw [if_neg (by omega), if_pos (by omega), String.toList_append, String.toList_append,
            String.toList_ofList, String.toList_ofList, String.toList_ofList, List.append_assoc]
          rfl

theorem toList_exponentText (style : NumberStyle) (digits : List Char) (point : Int) :
    (style.exponentText digits point).toList = mantissa digits ++ 'e' ::
      ((if point < 1 then "-" else style.exponentSign).toList
        ++ Nat.toDigits 10 (point - 1).natAbs) := by
  have hsign : (point - 1 < 0) = (point < 1) := by
    rw [eq_iff_iff]
    omega
  unfold NumberStyle.exponentText mantissa
  dsimp only
  simp only [String.toList_append, String.toList_ofList, Nat.toList_repr, hsign, List.append_assoc]
  congr 1
  rcases digits with _ | ⟨first, _ | ⟨second, rest⟩⟩
  · rfl
  · rfl
  · have hmore : 1 < (first :: second :: rest).length := by simp
    rw [if_pos hmore, List.drop_one, List.tail_cons, String.toList_append, String.toList_ofList,
      String.toList_ofList]
    rfl

/-- **The text of a number is its layout**, after its sign. -/
theorem toList_text_of_finite (hzero : x.rank ≠ 0) (hfinite : x.isFinite = true) :
    (numberStyle.text x).toList = (if x.negative then ['-'] else [])
      ++ layout (Nat.toDigits 10 (shortest .up x.rank).coefficient) (pointOf x.rank) := by
  have hpos := Nat.pos_of_ne_zero hzero
  have hdigits : 0 < (Nat.toDigits 10 (shortest .up x.rank).coefficient).length :=
    Nat.length_toDigits_pos
  -- a fraction of more than twenty-one whole digits would be laid out with a point
  have hlarge := length_le_pointOf hpos (of_decide_eq_true hfinite)
  have hpositional : numberStyle.positional (pointOf x.rank)
      = (decide (-6 < pointOf x.rank) && decide (pointOf x.rank ≤ 21)) := rfl
  rw [text_of_finite rfl hzero hfinite, String.toList_append, hpositional]
  congr 1
  · cases x.negative with
    | true  => rfl
    | false => rfl
  · generalize Nat.toDigits 10 (shortest .up x.rank).coefficient = digits at hdigits hlarge ⊢
    generalize pointOf x.rank = point at hlarge ⊢
    split
    · next hbetween =>
        rw [Bool.and_eq_true, decide_eq_true_eq, decide_eq_true_eq] at hbetween
        exact toList_positionalText hdigits hbetween.1 hbetween.2
    · next hbetween =>
        rw [Bool.and_eq_true, decide_eq_true_eq, decide_eq_true_eq] at hbetween
        have hwhole : ¬ ((digits.length : Int) ≤ point ∧ point ≤ 21) := by omega
        have hinside : ¬ (0 < point ∧ point < digits.length) := by omega
        have hfront : ¬ (-6 < point ∧ point ≤ 0) := by omega
        unfold layout
        rw [if_neg hwhole, if_neg hinside, if_neg hfront, toList_exponentText]
        split
        · rfl
        · rfl

/-- **The text of a number is what JavaScript writes.** -/
theorem isNumberText_text (x : Binary64) : IsNumberText x (numberStyle.text x) := by
  unfold NumberStyle.text
  split
  · next hnan => exact .nan hnan
  · next hnan =>
      split
      · next hinf =>
          have htext : numberStyle.infinity x.negative
            = if x.negative then "-Infinity" else "Infinity" := rfl
          rw [htext]
          cases hsign : x.negative with
          | true  => exact .minusInfinity hinf hsign
          | false => exact .infinity hinf hsign
      · next hinf =>
          split
          · next hzero => exact .zero hzero
          · next hzero =>
              have hfinite := x.isFinite_iff.mpr ⟨hnan, hinf⟩
              have htext := IsNumberText.finite hfinite hzero
                (isShortestDecimal_shortest hzero hfinite)
              rw [← toList_text_of_finite hzero hfinite, String.ofList_toList] at htext
              unfold NumberStyle.text at htext
              rwa [if_neg hnan, if_neg hinf, if_neg hzero] at htext

/-! ## By size -/

/-- Numbers without an exponent, whatever their size. -/
def positionalStyle : NumberStyle := { numberStyle with positional := fun _ => true }

/-- Numbers with an exponent, whatever their size, and no sign where it is not negative. -/
def exponentStyle : NumberStyle :=
  { numberStyle with positional := fun _ => false, exponentSign := "" }

/-- The text with a sign in front of its exponent. -/
def signExponent (text : List Char) : List Char :=
  match text.dropWhile (· != 'e') with
  | []            => text
  | _ :: exponent =>
    if exponent.head? = some '-' then text
    else text.takeWhile (· != 'e') ++ 'e' :: '+' :: exponent

/-- The text of a number, its layout chosen by its size. -/
def sizedText (x : Binary64) : String :=
  if x.isNaN then "NaN"
  else if x.isInfinite then if x.negative then "-Infinity" else "Infinity"
  else if x.rank = 0 then "0"
  else if positionalFrom ≤ x.rank ∧ x.rank < positionalUntil then positionalStyle.text x
  else String.ofList (signExponent (exponentStyle.text x).toList)

theorem signExponent_append {front exponent : List Char} (h : ∀ c ∈ front, (c != 'e') = true) :
    signExponent (front ++ 'e' :: exponent)
      = front ++ 'e' :: if exponent.head? = some '-' then exponent else '+' :: exponent := by
  unfold signExponent
  rw [Text.dropWhile_run h (Text.stopsAt_cons rfl), Text.takeWhile_run h (Text.stopsAt_cons rfl)]
  dsimp only
  split
  · rfl
  · rfl

theorem mantissa_ne_e {digits : List Char} (h : Digits.IsNumeral digits) :
    ∀ c ∈ mantissa digits, (c != 'e') = true := by
  have hdigit : ∀ c : Char, c.isDigit = true → (c != 'e') = true := by
    intro c hc
    rw [bne_iff_ne]
    rintro rfl
    exact absurd hc (by decide)
  unfold mantissa
  refine List.forall_mem_append.mpr ⟨fun c hc => hdigit c (h.take 1 c hc), ?_⟩
  split
  · exact List.forall_mem_cons.mpr ⟨rfl, fun c hc => hdigit c (h.drop 1 c hc)⟩
  · intro c hc
    exact nomatch hc

/-- A sign in front of the exponent makes up for the one that is not written. -/
theorem signExponent_exponentText {front digits : List Char} (point : Int)
    (hfront : ∀ c ∈ front, (c != 'e') = true) (hdigits : Digits.IsNumeral digits) :
    signExponent (front ++ (exponentStyle.exponentText digits point).toList)
      = front ++ (numberStyle.exponentText digits point).toList := by
  rw [toList_exponentText, toList_exponentText, ← List.append_assoc,
    signExponent_append (List.forall_mem_append.mpr ⟨hfront, mantissa_ne_e hdigits⟩),
    List.append_assoc]
  congr 3
  split
  · rfl
  · -- the exponent itself starts with a digit
    have hempty : exponentStyle.exponentSign.toList = [] := rfl
    have hhead : (Nat.toDigits 10 (point - 1).natAbs).head? ≠ some '-' := by
      intro hhead
      exact absurd (Digits.isNumeral_toDigits _ _ (List.mem_of_head? hhead)) (by decide)
    rw [hempty, List.nil_append, if_neg hhead]
    rfl

/-- **Choosing the layout by the size of the number gives the same text.** -/
theorem sizedText_eq_text (x : Binary64) : sizedText x = numberStyle.text x := by
  unfold sizedText
  split
  · next hnan =>
      unfold NumberStyle.text
      rw [if_pos hnan]
      rfl
  · next hnan =>
      split
      · next hinf =>
          unfold NumberStyle.text
          rw [if_neg hnan, if_pos hinf]
          rfl
      · next hinf =>
          split
          · next hzero =>
              unfold NumberStyle.text
              rw [if_neg hnan, if_neg hinf, if_pos hzero]
              rfl
          · next hzero =>
              have hfinite := x.isFinite_iff.mpr ⟨hnan, hinf⟩
              have hcriteria := positional_pointOf_iff (Nat.pos_of_ne_zero hzero)
              have htext := text_of_finite (show numberStyle.tie = .up from rfl) hzero hfinite
              rw [htext]
              by_cases hsize : positionalFrom ≤ x.rank ∧ x.rank < positionalUntil
              · rw [if_pos hsize, if_pos (hcriteria.mpr hsize), text_of_finite rfl hzero hfinite]
                rfl
              · have hsign : ∀ c ∈ (if x.negative then "-" else "").toList,
                      (c != 'e') = true := by
                  cases x.negative with
                  | true  => exact List.all_eq_true.mp (by decide)
                  | false => exact List.all_eq_true.mp (by decide)
                have hexponent : exponentStyle.text x = (if x.negative then "-" else "")
                    ++ exponentStyle.exponentText
                      (Nat.toDigits 10 (shortest .up x.rank).coefficient) (pointOf x.rank) :=
                  text_of_finite rfl hzero hfinite
                rw [if_neg hsize, if_neg (mt hcriteria.mp hsize), hexponent, String.toList_append,
                  signExponent_exponentText _ hsign (Digits.isNumeral_toDigits _),
                  ← String.toList_append, String.ofList_toList]

/-! ## The whole -/

/-- **Numbers are written as JavaScript writes them**, whether the layout is chosen by the shortest
    decimal or by the size, and the text is read as the number it was written for. -/
theorem text_layout (x : Binary64) :
    IsNumberText x (numberStyle.text x) ∧
      sizedText x = numberStyle.text x ∧
      numberOf? (numberStyle.text x) = some x.canonical :=
  ⟨isNumberText_text x, sizedText_eq_text x, numberOf?_text x⟩

end SchemaForge.Zod
