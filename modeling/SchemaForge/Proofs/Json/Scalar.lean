import SchemaForge.Document.Json.Writer
import SchemaForge.Proofs.Json.Numeral

/-!
# `Proofs.Json.Scalar` — written scalars are single tokens

Every scalar that the writer writes is one token to the reader: a double that is finite comes back
as the same double, any other as null, an integer of sixty-four bits as the same integer, and a
string as the same text, whatever characters it has.

## Contents
- **Numbers.** `token?_floatText`, `token?_intText`.
- **Strings.** `stringBody?_escape`, `token?_stringText`.
-/

namespace SchemaForge.Document.Json

open Digits Text

variable {rest : List Char}

/-! ## Numbers as tokens -/

/-- A text at whose front there is a number without a sign is not any other token. -/
theorem token?_of_number? {text : List Char} {value : Scalar}
    (h : number? false text = some (value, rest)) : token? text = some (.scalar value, rest) := by
  cases text with
  | nil => exact nomatch h
  | cons c text =>
      have hdigit := isDigit_of_number? h
      have hne : ∀ {d : Char} {text' : List Char}, d.isDigit = false → c :: text ≠ d :: text' := by
        intro d text' hd heq
        rw [(List.cons.inj heq).1, hd] at hdigit
        exact nomatch hdigit
      unfold token?
      split
      case h_12 => rw [h]; rfl
      all_goals exact absurd (by assumption) (hne (by decide))

theorem token?_minus {text : List Char} {value : Scalar}
    (h : number? true text = some (value, rest)) :
    token? ('-' :: text) = some (.scalar value, rest) := by
  rw [token?, h]
  rfl

/-- The token of a number with a sign or without. -/
theorem token?_signed {negative : Bool} {text : String} {value : Scalar}
    (h : number? negative (text.toList ++ rest) = some (value, rest)) :
    token? (((if negative then "-" else "") ++ text).toList ++ rest) = some (.scalar value, rest) := by
  cases negative with
  | true =>
      rw [if_pos rfl, String.toList_append, List.append_assoc]
      exact token?_minus h
  | false =>
      rw [if_neg Bool.false_ne_true, String.toList_append, List.append_assoc]
      exact token?_of_number? h

/-! ## Doubles -/

/-- What the reader makes of a written double. -/
def readFloat (x : Binary64) : Scalar := if x.isFinite then .float x else .null

theorem readFloat_of_isFinite {x : Binary64} (h : x.isFinite = true) : readFloat x = .float x :=
  if_pos h

theorem readFloat_of_not_isFinite {x : Binary64} (h : ¬ x.isFinite = true) : readFloat x = .null :=
  if_neg h

theorem floatScalar_eq {negative : Bool} {coefficient : Nat} {exponent : Int} {x : Binary64}
    (h : Binary64.ofDecimal negative coefficient exponent = x) (hfinite : x.isFinite = true) :
    floatScalar negative coefficient exponent = .float x := by
  unfold floatScalar
  rw [h, if_pos hfinite]

/-- **A written double is read back, one that is not finite as null.** -/
theorem token?_floatText (x : Binary64) (stop : EndsNumber rest) :
    token? ((floatStyle.text x).toList ++ rest) = some (.scalar (readFloat x), rest) := by
  unfold NumberStyle.text
  split
  · next hnan =>   -- not a number
      rw [readFloat_of_not_isFinite fun h => (x.isFinite_iff.mp h).1 hnan]
      rfl
  · split
    · next hinf =>   -- an infinity
        have htext : floatStyle.infinity x.negative = "null" := rfl
        rw [readFloat_of_not_isFinite fun h => (x.isFinite_iff.mp h).2 hinf, htext]
        rfl
    · next hnan hinf =>
        have hfinite := x.isFinite_iff.mpr ⟨hnan, hinf⟩
        rw [readFloat_of_isFinite hfinite]
        split
        · next hzero =>   -- a zero, which keeps its sign
            have hscalar := floatScalar_eq (Binary64.ofDecimal_zero hzero (-1)) hfinite
            have hread : number? x.negative ("0.0".toList ++ rest) = some (.float x, rest) := by
              have := number?_point x.negative IsWhole.zero (List.cons_ne_nil '0' [])
                (isNumeral_replicate_zero 1) stop
              rw [← hscalar]
              exact this
            have htext : floatStyle.zero x.negative = (if x.negative then "-" else "") ++ "0.0" := by
              cases x.negative <;> rfl
            rw [htext]
            exact token?_signed hread
        · next hzero =>   -- any other number, by its shortest decimal
            have hpos := (Binary64.shortest_mem floatStyle.tie x.rank).1.coefficient_pos hzero
            have hread := number?_decimalText x.negative floatStyle rfl rfl hpos stop
            rw [floatScalar_eq (Binary64.ofDecimal_shortest _ hzero hfinite) hfinite] at hread
            exact token?_signed hread

/-! ## Integers -/

theorem integerScalar_eq {negative : Bool} {magnitude : Nat} {n : Int}
    (hn : (if negative then -(magnitude : Int) else magnitude) = n)
    (hzero : ¬ (negative = true ∧ magnitude = 0))
    (hfits : (Width.holdsSigned 63 n || Width.holdsUnsigned 64 n) = true) :
    integerScalar negative magnitude = .int n := by
  unfold integerScalar
  dsimp only
  rw [hn, hfits]
  rw [if_neg]
  simpa using hzero

/-- **A written integer of sixty-four bits is read back.** -/
theorem token?_intText {n : Int}
    (hfits : (Width.holdsSigned 63 n || Width.holdsUnsigned 64 n) = true)
    (stop : EndsNumber rest) :
    token? ((intText n).toList ++ rest) = some (.scalar (.int n), rest) := by
  have hsign : (if n < 0 then "-" else "") = if decide (n < 0) = true then "-" else "" := by simp
  unfold intText
  rw [hsign]
  refine token?_signed ?_
  rw [Nat.toList_repr]
  rcases Nat.eq_zero_or_pos n.natAbs with hzero | hpos
  · obtain rfl : n = 0 := Int.natAbs_eq_zero.mp hzero
    have hread := number?_parts false IsWhole.zero stop.endsNumeral
      (fraction?_none fun h => (stop '.' h).2.1 rfl) (exponent?_none stop)
    have hscalar : numeralScalar false ['0'] none none = .int 0 := by
      rw [numeralScalar]
      exact integerScalar_eq rfl (fun h => Bool.false_ne_true h.1) hfits
    rw [hscalar] at hread
    exact hread
  · have hread := number?_unmarked (decide (n < 0)) hpos 0 stop
    have hscalar : integerScalar (decide (n < 0)) (n.natAbs * Nat.pow 10 0) = .int n := by
      have hone : n.natAbs * Nat.pow 10 0 = n.natAbs := Nat.mul_one _
      rw [hone]
      refine integerScalar_eq ?_ (fun h => by omega) hfits
      simp only [decide_eq_true_eq]
      split <;> omega
    rw [hscalar, List.replicate_zero, List.append_nil] at hread
    exact hread

/-! ## Strings -/

/-- A character that is written by its code unit is read, whatever follows it. -/
theorem stringBody?_unit {a b c d : Char} {unit : Nat}
    (hread : Digits.read? 16 [a, b, c, d] = some unit) (hunit : isHighUnit unit = false)
    (text : List Char) :
    stringBody? ('\\' :: 'u' :: a :: b :: c :: d :: text)
      = (stringBody? text).map (stringBody?.addChar (charOfUnit unit)) := by
  rw [stringBody?.eq_def]
  simp only [hread]
  split
  · next e f g h after =>
      split
      · next hnone =>
          have htext : stringBody? ('\\' :: 'u' :: e :: f :: g :: h :: after) = none := by
            rw [stringBody?.eq_def]
            simp only [hnone]
          rw [htext]
          rfl
      · rw [hunit, Bool.false_and, if_neg Bool.false_ne_true]
  · rfl

/-- The control characters, which are escaped by their code units. -/
theorem read?_hex_control : ∀ n < 32, Digits.read? 16 (hex 'a' 4 n) = some n := by
  decide

/-- **An escaped character is read back.** -/
theorem stringBody?_escapeChar (c : Char) (text : List Char) :
    stringBody? (escapeChar c ++ text)
      = (stringBody? text).map (stringBody?.addChar (some c)) := by
  unfold escapeChar
  split
  case h_8 =>
    -- no short escape: a control character stands as its number, any other one for itself
    split
    · next hcontrol =>
        have hlt : c.toNat < 32 := hcontrol
        have hunit : isHighUnit c.toNat = false := by
          unfold isHighUnit
          rw [Bool.and_eq_false_iff]
          left
          rw [decide_eq_false_iff_not]
          omega
        have hchar : charOfUnit c.toNat = some c := by
          unfold charOfUnit
          rw [if_neg (by omega), Char.ofNat_toNat]
        have hread := stringBody?_unit (read?_hex_control c.toNat hlt) hunit text
        rw [hchar] at hread
        exact hread
    · next hquote hslash _ _ _ _ _ hcontrol =>
        rw [List.singleton_append, stringBody?.eq_def]
        split
        · next heq => exact nomatch heq
        · next heq => exact absurd (List.cons.inj heq).1 hquote
        · next heq => exact absurd (List.cons.inj heq).1 hslash
        · next heq => exact absurd (List.cons.inj heq).1 hslash
        · next heq =>
            obtain ⟨rfl, rfl⟩ := List.cons.inj heq
            rw [if_neg (not_or.mpr ⟨hcontrol, hslash⟩)]
  all_goals rfl

/-- **A written string is read back**, whatever characters it has. -/
theorem stringBody?_escape (text : List Char) (rest : List Char) :
    stringBody? (text.flatMap escapeChar ++ '"' :: rest) = some (some text, rest) := by
  induction text with
  | nil => rfl
  | cons c text ih =>
      rw [List.flatMap_cons, List.append_assoc, stringBody?_escapeChar, ih]
      rfl

theorem token?_stringText (text : String) (rest : List Char) :
    token? ((stringText text).toList ++ rest) = some (.string (some text), rest) := by
  unfold stringText
  rw [String.toList_ofList, List.cons_append, List.cons_append, List.append_assoc,
    List.singleton_append, token?, stringBody?_escape, Option.map_some]
  dsimp only
  rw [Option.map_some, String.ofList_toList]

end SchemaForge.Document.Json
