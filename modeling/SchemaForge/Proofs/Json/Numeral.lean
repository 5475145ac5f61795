import SchemaForge.Document.Json.Token
import SchemaForge.Number.Notation
import SchemaForge.Proofs.Number.Shortest
import SchemaForge.Proofs.Text.Digits

/-!
# `Proofs.Json.Numeral` — written numbers are read back

The reader of numerals undoes the notation of numbers: whichever of its three forms a style takes
for a decimal, positional with or without a fraction or with an exponent, the digits and the place
of the point are found again.

## Contents
- **Parts.** `EndsNumber`, `number?_parts`: whole part, fraction and exponent of a numeral.
- **Forms.** `number?_small`, `number?_mixed`, `number?_whole`, `number?_exponentText`.
- **Numbers.** `number?_decimalText`, for every style that marks its whole numbers, and
  `number?_unmarked` for one that does not.
-/

namespace SchemaForge.Document.Json

open Digits Text

/-! ## Parts of a numeral -/

/-- A text does not go on with anything that belongs to a number. -/
def EndsNumber (rest : List Char) : Prop :=
  ∀ c, rest.head? = some c → c.isDigit = false ∧ c ≠ '.' ∧ c ≠ 'e' ∧ c ≠ 'E'

theorem EndsNumber.endsNumeral {rest : List Char} (h : EndsNumber rest) : EndsNumeral rest :=
  fun c hc => (h c hc).1

theorem endsNumber_nil : EndsNumber [] := by
  intro c hc
  exact nomatch hc

/-- A whole part: the numeral zero, or one that does not start with it. -/
inductive IsWhole : List Char → Prop where
  | zero : IsWhole ['0']
  | positive {first : Char} {rest : List Char} (hdigits : IsNumeral (first :: rest))
      (hfirst : first ≠ '0') : IsWhole (first :: rest)

/-- More digits may follow those of a positive number. -/
theorem isWhole_toDigits_append {n : Nat} (hpos : 0 < n) {more : List Char}
    (hmore : IsNumeral more) : IsWhole (Nat.toDigits 10 n ++ more) := by
  obtain ⟨first, rest, hdigits, hfirst⟩ := exists_head_toDigits hpos
  have hnumeral := (isNumeral_toDigits n).append hmore
  rw [hdigits, List.cons_append] at hnumeral ⊢
  exact IsWhole.positive hnumeral hfirst

/-- The value of a numeral with the given whole part, fraction and exponent. -/
def numeralScalar (negative : Bool) (whole : List Char) :
    Option (List Char) → Option Int → Scalar
  | none,     none     => integerScalar negative (value 10 whole)
  | fraction, exponent =>
    floatScalar negative (value 10 (whole ++ fraction.getD []))
      (exponent.getD 0 - (fraction.getD []).length)

theorem fraction?_point {digits rest : List Char} (hne : digits ≠ []) (hdigits : IsNumeral digits)
    (stop : EndsNumeral rest) :
    fraction? ('.' :: (digits ++ rest)) = some (some digits, rest) := by
  rw [fraction?, span_append hdigits stop]
  cases digits with
  | nil       => exact absurd rfl hne
  | cons _ _  => rfl

theorem fraction?_none {rest : List Char} (h : rest.head? ≠ some '.') :
    fraction? rest = some (none, rest) := by
  unfold fraction?
  split
  · exact absurd rfl h
  · rfl

theorem exponent?_none {rest : List Char} (h : EndsNumber rest) :
    exponent? rest = some (none, rest) := by
  cases rest with
  | nil => rfl
  | cons c rest =>
      obtain ⟨-, -, hlower, hupper⟩ := h c rfl
      unfold exponent?
      dsimp only
      rw [if_neg (by simp [hlower, hupper])]

/-- An exponent is read with its sign. -/
theorem exponent?_written {sign : Char} {digits rest : List Char} (hsign : sign = '-' ∨ sign = '+')
    (hne : digits ≠ []) (hdigits : IsNumeral digits) (stop : EndsNumeral rest) :
    exponent? ('e' :: sign :: (digits ++ rest))
      = some (some (if sign = '-' then -(value 10 digits : Int) else value 10 digits), rest) := by
  rcases hsign with rfl | rfl
  · rw [exponent?, if_pos (Or.inl rfl), span_append hdigits stop]
    cases digits with
    | nil      => exact absurd rfl hne
    | cons _ _ => rfl
  · rw [exponent?, if_pos (Or.inl rfl), span_append hdigits stop]
    cases digits with
    | nil      => exact absurd rfl hne
    | cons _ _ => rfl

/-- **A numeral is read part by part.** -/
theorem number?_parts (negative : Bool) {whole rest rest' rest'' : List Char}
    {fraction : Option (List Char)} {exponent : Option Int} (hwhole : IsWhole whole)
    (stop : EndsNumeral rest) (hfraction : fraction? rest = some (fraction, rest'))
    (hexponent : exponent? rest' = some (exponent, rest'')) :
    number? negative (whole ++ rest)
      = some (numeralScalar negative whole fraction exponent, rest'') := by
  have hne : whole ≠ [] := by
    cases hwhole with
    | zero              => exact List.cons_ne_nil _ _
    | positive _ hfirst => exact List.cons_ne_nil _ _
  unfold number?
  split
  next whole' after hpair =>
    -- the scanner takes a zero alone, and of other digits as many as there are
    obtain ⟨rfl, rfl⟩ : whole' = whole ∧ after = rest := by
      split at hpair
      · next heq =>
          obtain ⟨rfl, rfl⟩ := Prod.mk.inj hpair
          cases hwhole with
          | zero              => exact ⟨rfl, (List.cons.inj heq).2.symm⟩
          | positive _ hfirst => exact absurd (List.cons.inj heq).1 hfirst
      · next hzero =>
          cases hwhole with
          | zero => exact absurd rfl (hzero rest)
          | positive hdigits _ =>
              rw [span_append hdigits stop] at hpair
              obtain ⟨rfl, rfl⟩ := Prod.mk.inj hpair
              exact ⟨rfl, rfl⟩
    rw [if_neg hne, hfraction]
    dsimp only [bind, Option.bind]
    rw [hexponent]
    cases fraction <;> cases exponent <;> rfl

/-- A number starts with a digit. -/
theorem isDigit_of_number? {negative : Bool} {c : Char} {text : List Char}
    {result : Scalar × List Char} (h : number? negative (c :: text) = some result) :
    c.isDigit = true := by
  by_contra hnot
  rw [Bool.not_eq_true] at hnot
  have hspan : span 10 (c :: text) = ([], c :: text) :=
    span_append (fun _ hd => absurd hd List.not_mem_nil) (stopsAt_cons hnot)
  unfold number? at h
  split at h
  next whole after hpair =>
    split at hpair
    · next heq =>
        rw [(List.cons.inj heq).1] at hnot
        exact absurd hnot (by decide)
    · rw [hspan, Prod.mk.injEq] at hpair
      rw [← hpair.1, if_pos rfl] at h
      exact nomatch h

/-! ## The forms of a decimal -/

variable (negative : Bool) {coefficient : Nat} {rest : List Char}

theorem floatScalar_mul_pow (coefficient zeros : Nat) (exponent : Int) :
    floatScalar negative (coefficient * Nat.pow 10 zeros) (exponent - zeros)
      = floatScalar negative coefficient exponent := by
  unfold floatScalar
  rw [Binary64.ofDecimal_mul_pow]

theorem endsNumeral_cons {c : Char} (h : c.isDigit = false) : EndsNumeral (c :: rest) :=
  stopsAt_cons h

/-- A whole part and a fraction, with nothing after them. -/
theorem number?_point {whole places : List Char} (hwhole : IsWhole whole) (hne : places ≠ [])
    (hplaces : IsNumeral places) (stop : EndsNumber rest) :
    number? negative (whole ++ '.' :: (places ++ rest))
      = some (floatScalar negative (value 10 (whole ++ places)) (-places.length), rest) := by
  have hparts := number?_parts negative hwhole (endsNumeral_cons rfl)
    (fraction?_point hne hplaces stop.endsNumeral) (exponent?_none stop)
  rw [hparts, numeralScalar, Option.getD_some, Option.getD_none, Int.zero_sub]
  rintro ⟨⟩

/-- A decimal below one: zeros stand between the point and the digits. -/
theorem number?_small (coefficient zeros : Nat) (stop : EndsNumber rest) :
    number? negative ('0' :: '.' :: (List.replicate zeros '0' ++ Nat.toDigits 10 coefficient ++ rest))
      = some (floatScalar negative coefficient
          (-(zeros + (Nat.toDigits 10 coefficient).length : Nat)), rest) := by
  have hdigits := isNumeral_toDigits coefficient
  have hplaces := (isNumeral_replicate_zero zeros).append hdigits
  have hread := number?_point negative IsWhole.zero (by simp) hplaces stop
  rw [List.length_append, List.length_replicate, ← List.append_assoc] at hread
  rw [List.cons_append, List.nil_append] at hread
  rw [hread]
  have hvalue := value_zeros_append hdigits (zeros + 1)
  rw [value_toDigits, List.replicate_succ, List.cons_append] at hvalue
  rw [List.append_assoc, List.cons_append, List.nil_append, hvalue]

/-- A decimal whose point stands among its digits. -/
theorem number?_mixed (point : Nat) (hpos : 0 < coefficient) (hpoint : 0 < point)
    (hlt : point < (Nat.toDigits 10 coefficient).length) (stop : EndsNumber rest) :
    number? negative ((Nat.toDigits 10 coefficient).take point
        ++ '.' :: ((Nat.toDigits 10 coefficient).drop point ++ rest))
      = some (floatScalar negative coefficient
          (-((Nat.toDigits 10 coefficient).length - point : Nat)), rest) := by
  have hdigits := isNumeral_toDigits coefficient
  have hwhole : IsWhole ((Nat.toDigits 10 coefficient).take point) := by
    obtain ⟨first, others, hcons, hfirst⟩ := exists_head_toDigits hpos
    obtain ⟨more, rfl⟩ : ∃ more, point = more + 1 := ⟨point - 1, by omega⟩
    have htake := hdigits.take (more + 1)
    rw [hcons, List.take_succ_cons] at htake ⊢
    exact IsWhole.positive htake hfirst
  have hne : (Nat.toDigits 10 coefficient).drop point ≠ [] := by
    rw [ne_eq, List.drop_eq_nil_iff]
    omega
  rw [number?_point negative hwhole hne (hdigits.drop point) stop, List.take_append_drop, value_toDigits,
    List.length_drop]

/-- A whole decimal that is marked as a double. -/
theorem number?_marked (hpos : 0 < coefficient) (zeros : Nat) (stop : EndsNumber rest) :
    number? negative (Nat.toDigits 10 coefficient ++ List.replicate zeros '0' ++ '.' :: '0' :: rest)
      = some (floatScalar negative coefficient zeros, rest) := by
  have hdigits := isNumeral_toDigits coefficient
  have hwhole := isWhole_toDigits_append hpos (isNumeral_replicate_zero zeros)
  have hread := number?_point negative hwhole (List.cons_ne_nil '0' [])
    (isNumeral_replicate_zero 1) stop
  rw [List.cons_append, List.nil_append] at hread
  have hone : ['0'] = List.replicate 1 '0' := rfl
  rw [hread, hone, List.append_assoc, List.replicate_append_replicate, value_append_zeros hdigits,
    value_toDigits, ← floatScalar_mul_pow negative coefficient (zeros + 1) zeros]
  congr 3
  simp

/-- A whole decimal without a mark. -/
theorem number?_unmarked (hpos : 0 < coefficient) (zeros : Nat) (stop : EndsNumber rest) :
    number? negative (Nat.toDigits 10 coefficient ++ List.replicate zeros '0' ++ rest)
      = some (integerScalar negative (coefficient * Nat.pow 10 zeros), rest) := by
  have hdigits := isNumeral_toDigits coefficient
  have hwhole := isWhole_toDigits_append hpos (isNumeral_replicate_zero zeros)
  have hpoint : rest.head? ≠ some '.' := fun h => (stop '.' h).2.1 rfl
  rw [number?_parts negative hwhole stop.endsNumeral (fraction?_none hpoint) (exponent?_none stop),
    numeralScalar, value_append_zeros hdigits, value_toDigits]

/-- A decimal with an exponent: the point stands after the first digit, if there are more. -/
theorem number?_exponentText {style : NumberStyle} (hsign : style.exponentSign = "+")
    (hpos : 0 < coefficient) (point : Int) (stop : EndsNumber rest) :
    number? negative
        ((style.exponentText (Nat.toDigits 10 coefficient) point).toList ++ rest)
      = some (floatScalar negative coefficient
          (point - (Nat.toDigits 10 coefficient).length), rest) := by
  have hvalue := value_toDigits coefficient
  have hdigits := isNumeral_toDigits coefficient
  obtain ⟨first, others, hcons, hfirst⟩ := exists_head_toDigits hpos
  rw [hcons] at hvalue hdigits ⊢
  have hwhole : IsWhole [first] := IsWhole.positive (hdigits.take 1) hfirst
  have hothers : IsNumeral others := hdigits.drop 1
  -- the exponent counts from behind the first digit, and its sign is always written
  obtain ⟨sign, htext, hone, hread⟩ : ∃ sign : Char,
      (if point - 1 < 0 then "-" else style.exponentSign).toList = [sign] ∧
      (sign = '-' ∨ sign = '+') ∧
      (if sign = '-' then -((point - 1).natAbs : Int) else (point - 1).natAbs) = point - 1 := by
    split
    · next hneg =>
        refine ⟨'-', rfl, Or.inl rfl, ?_⟩
        rw [if_pos rfl]
        omega
    · next hnonneg =>
        refine ⟨'+', by rw [hsign]; rfl, Or.inr rfl, ?_⟩
        rw [if_neg (by decide)]
        omega
  have hexponent := exponent?_written hone Nat.toDigits_ne_nil
    (isNumeral_toDigits (point - 1).natAbs) stop.endsNumeral
  rw [value_toDigits, hread] at hexponent
  have hend : EndsNumeral ('e' :: sign :: (Nat.toDigits 10 (point - 1).natAbs ++ rest)) :=
    endsNumeral_cons rfl
  have hexp : "e".toList = ['e'] := rfl
  unfold NumberStyle.exponentText
  dsimp only
  rw [String.toList_append, String.toList_append, String.toList_append, String.toList_append,
    htext, hexp, Nat.toList_repr, String.toList_ofList]
  cases others with
  | nil =>   -- one digit: no point
      have hparts := number?_parts negative hwhole hend
        (fraction?_none (by simp)) hexponent
      have hscalar : numeralScalar negative [first] none (some (point - 1))
          = floatScalar negative coefficient (point - 1) := by
        rw [numeralScalar, Option.getD_none, List.append_nil, hvalue, Option.getD_some,
          List.length_nil, Int.natCast_zero, Int.sub_zero]
        rintro ⟨⟩
        simp
      rw [hscalar] at hparts
      simpa using hparts
  | cons digit others =>   -- the digits after the first are the fraction
      have hparts := number?_parts negative hwhole (endsNumeral_cons rfl)
        (fraction?_point (List.cons_ne_nil digit others) hothers hend) hexponent
      have hscalar : numeralScalar negative [first] (some (digit :: others)) (some (point - 1))
          = floatScalar negative coefficient
              (point - (first :: digit :: others).length) := by
        have hlength : ((first :: digit :: others).length : Int) = (digit :: others).length + 1 :=
          rfl
        rw [numeralScalar, Option.getD_some, List.singleton_append, hvalue, Option.getD_some,
          hlength]
        · congr 1
          omega
        · rintro ⟨⟩
      rw [hscalar] at hparts
      simpa using hparts

/-! ## Decimals in a style -/

/-- A decimal is read back if its whole form is, for which the style decides how it ends. -/
theorem number?_decimalText_of_whole (style : NumberStyle) (hsign : style.exponentSign = "+")
    {decimal : Decimal} (hpos : 0 < decimal.coefficient) (stop : EndsNumber rest)
    (Reads : Scalar → Prop)
    (hreads : Reads (floatScalar negative decimal.coefficient decimal.exponent))
    (hwhole : ∀ zeros : Nat, decimal.exponent = zeros → ∃ value,
      number? negative (Nat.toDigits 10 decimal.coefficient ++ List.replicate zeros '0'
        ++ (style.wholeEnd.toList ++ rest)) = some (value, rest) ∧ Reads value) :
    ∃ value, number? negative ((style.decimalText decimal).toList ++ rest) = some (value, rest)
      ∧ Reads value := by
  obtain ⟨coefficient, exponent⟩ := decimal
  dsimp only at hpos hreads hwhole
  have hlength : 0 < (Nat.toDigits 10 coefficient).length := Nat.length_toDigits_pos
  unfold NumberStyle.decimalText
  dsimp only
  split
  · unfold NumberStyle.positionalText
    split
    · -- the point stands before the digits
      next hpoint =>
        refine ⟨_, ?_, hreads⟩
        have hread := number?_small negative coefficient
          (-(((Nat.toDigits 10 coefficient).length : Int) + exponent)).toNat stop
        have hexponent : -(((-(((Nat.toDigits 10 coefficient).length : Int) + exponent)).toNat
            + (Nat.toDigits 10 coefficient).length : Nat) : Int) = exponent := by omega
        rw [hexponent] at hread
        simpa using hread
    · split
      · -- the point stands after the digits
        next hpoint hzeros =>
          obtain ⟨zeros, rfl⟩ : ∃ zeros : Nat, exponent = zeros := ⟨exponent.toNat, by omega⟩
          obtain ⟨value, hread, hvalue⟩ := hwhole zeros rfl
          refine ⟨value, ?_, hvalue⟩
          have hcount : (((Nat.toDigits 10 coefficient).length : Int) + zeros).toNat
              - (Nat.toDigits 10 coefficient).length = zeros := by omega
          rw [String.toList_append, String.toList_ofList, hcount, List.append_assoc]
          exact hread
      · -- the point stands among the digits
        next hpoint hmixed =>
          refine ⟨_, ?_, hreads⟩
          have hread := number?_mixed negative
            (((Nat.toDigits 10 coefficient).length : Int) + exponent).toNat hpos
            (by omega) (by omega) stop
          have hexponent : -(((Nat.toDigits 10 coefficient).length
              - (((Nat.toDigits 10 coefficient).length : Int) + exponent).toNat : Nat) : Int)
              = exponent := by omega
          rw [hexponent] at hread
          simpa using hread
  · refine ⟨_, ?_, hreads⟩
    have hread := number?_exponentText negative hsign hpos
      (((Nat.toDigits 10 coefficient).length : Int) + exponent) stop
    rwa [show ((Nat.toDigits 10 coefficient).length : Int) + exponent
      - (Nat.toDigits 10 coefficient).length = exponent by omega] at hread

/-- **A decimal is read back** from the notation of a style that marks its whole numbers. -/
theorem number?_decimalText (style : NumberStyle) (hend : style.wholeEnd = ".0")
    (hsign : style.exponentSign = "+") {decimal : Decimal} (hpos : 0 < decimal.coefficient)
    (stop : EndsNumber rest) :
    number? negative ((style.decimalText decimal).toList ++ rest)
      = some (floatScalar negative decimal.coefficient decimal.exponent, rest) := by
  obtain ⟨value, hread, rfl⟩ := number?_decimalText_of_whole negative style hsign hpos stop
    (· = floatScalar negative decimal.coefficient decimal.exponent) rfl (by
      intro zeros hzeros
      refine ⟨_, ?_, rfl⟩
      rw [hend, hzeros]
      exact number?_marked negative hpos zeros stop)
  exact hread

end SchemaForge.Document.Json
