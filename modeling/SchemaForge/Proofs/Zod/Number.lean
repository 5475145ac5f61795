import SchemaForge.Proofs.Json.Numeral
import SchemaForge.Zod.Chain

/-!
# `Proofs.Zod.Number` — which numbers are written alike

The text of a number as an argument determines the number, but for the sign of a zero and the
representation of what is not a number. `canonical` chooses one number for each text, and
`numberOf?` finds it from the text.

## Contents
- **Canonical numbers.** `Binary64.canonical`, `text_canonical`.
- **Reading.** `numberOf?`, and `numberOf?_text`.
- **Characters.** `paren_not_mem_text`: an argument ends where the number does.
-/

namespace SchemaForge

/-- One number for all those that are written alike. -/
def Binary64.canonical (x : Binary64) : Binary64 :=
  if x.isNaN then .nan else if x.rank = 0 then .zero else x

namespace Zod

open Document

theorem text_canonical (x : Binary64) : numberStyle.text x.canonical = numberStyle.text x := by
  unfold Binary64.canonical
  split
  · next hnan =>
      unfold NumberStyle.text
      rw [if_pos hnan]
      rfl
  · next hnan =>
      split
      · next hzero =>
          have hinf : ¬ x.isInfinite = true := by
            unfold Binary64.isInfinite
            rw [hzero]
            decide
          unfold NumberStyle.text
          rw [if_neg hnan, if_neg hinf, if_pos hzero]
          rfl
      · rfl

/-! ## Reading -/

/-- The number at the front of a text. -/
def valueOf? (negative : Bool) (text : List Char) : Option Binary64 :=
  (Json.number? negative text).bind fun result => Node.number? .direct (.scalar result.1)

/-- The number that a text stands for. -/
def numberOf? (text : String) : Option Binary64 :=
  if text = "NaN" then some .nan
  else if text = "Infinity" then some (.infinity false)
  else if text = "-Infinity" then some (.infinity true)
  else
    match text.toList with
    | '-' :: rest => valueOf? true rest
    | rest        => valueOf? false rest

/-- A whole number is read as the number it stands for, whether or not it fits an integer. -/
theorem number?_integerScalar {negative : Bool} {magnitude : Nat} {x : Binary64}
    (hpos : 0 < magnitude) (hx : Binary64.ofDecimal negative magnitude 0 = x)
    (hfinite : x.isFinite = true) :
    Node.number? .direct (.scalar (Json.integerScalar negative magnitude)) = some x := by
  have hint : Binary64.ofInt (if negative then -(magnitude : Int) else magnitude) = x := by
    unfold Binary64.ofInt
    rw [← hx]
    cases negative with
    | true =>
        rw [if_pos rfl, decide_eq_true (by omega), Int.natAbs_neg, Int.natAbs_natCast]
    | false =>
        rw [if_neg Bool.false_ne_true, decide_eq_false (by omega), Int.natAbs_natCast]
  unfold Json.integerScalar
  dsimp only
  generalize (if negative then -(magnitude : Int) else magnitude) = n at hint ⊢
  split
  · -- no integer of sixty-four bits: a double is read
    unfold Json.floatScalar
    dsimp only
    rw [hx, if_pos hfinite]
    rfl
  · exact congrArg some hint

/-- The decimal of a finite number other than zero is read as that number. -/
theorem valueOf?_decimalText {x : Binary64} (hzero : x.rank ≠ 0) (hfinite : x.isFinite = true) :
    valueOf? x.negative
      (numberStyle.decimalText (Binary64.shortest numberStyle.tie x.rank)).toList = some x := by
  have hpos := (Binary64.shortest_mem numberStyle.tie x.rank).1.coefficient_pos hzero
  have hx := Binary64.ofDecimal_shortest numberStyle.tie hzero hfinite
  generalize Binary64.shortest numberStyle.tie x.rank = decimal at hpos hx ⊢
  have hscalar : Node.number? .direct
      (.scalar (Json.floatScalar x.negative decimal.coefficient decimal.exponent)) = some x := by
    unfold Json.floatScalar
    rw [hx]
    dsimp only
    rw [if_pos hfinite]
    rfl
  -- without a point or an exponent the text is read as an integer
  obtain ⟨value, hread, hvalue⟩ := Json.number?_decimalText_of_whole
    x.negative numberStyle rfl hpos Json.endsNumber_nil
    (fun value => Node.number? .direct (.scalar value) = some x) hscalar (by
      intro zeros hzeros
      refine ⟨_, Json.number?_unmarked x.negative hpos zeros Json.endsNumber_nil, ?_⟩
      refine number?_integerScalar (Nat.mul_pos hpos (Nat.pow_pos (by decide))) ?_ hfinite
      have hmul := Binary64.ofDecimal_mul_pow x.negative decimal.coefficient zeros zeros
      rw [Int.sub_self, ← hzeros, hx] at hmul
      exact hmul)
  rw [List.append_nil] at hread
  unfold valueOf?
  rw [hread]
  exact hvalue

theorem numberOf?_zero : numberOf? "0" = some .zero := by
  decide +kernel

/-- A number is read whose text starts with a digit, after its sign. -/
theorem numberOf?_signed {negative : Bool} {text : String} {x : Binary64}
    (h : valueOf? negative text.toList = some x) :
    numberOf? ((if negative then "-" else "") ++ text) = some x := by
  obtain ⟨first, rest, htext, hdigit⟩ : ∃ first rest, text.toList = first :: rest ∧
      first.isDigit = true := by
    cases htext : text.toList with
    | nil =>
        rw [htext] at h
        exact nomatch h
    | cons first rest =>
        rw [htext] at h
        unfold valueOf? at h
        rw [Option.bind_eq_some_iff] at h
        obtain ⟨result, hresult, -⟩ := h
        exact ⟨first, rest, rfl, Json.isDigit_of_number? hresult⟩
  have hsigned : ((if negative then "-" else "") ++ text).toList
      = if negative then '-' :: first :: rest else first :: rest := by
    rw [String.toList_append, htext]
    cases negative <;> rfl
  -- the names of the special values have no digit at their front, nor after a sign
  have hname : ∀ {name : String}, name.toList.head?.any Char.isDigit = false →
      (name.toList.drop 1).head?.any Char.isDigit = false →
      (if negative then "-" else "") ++ text ≠ name := by
    intro name hfirst hsecond heq
    rw [← heq, hsigned] at hfirst hsecond
    cases negative with
    | true  => exact absurd (hdigit.symm.trans hsecond) (by decide)
    | false => exact absurd (hdigit.symm.trans hfirst) (by decide)
  unfold numberOf?
  rw [if_neg (hname (by decide) (by decide)), if_neg (hname (by decide) (by decide)),
    if_neg (hname (by decide) (by decide)), hsigned]
  rw [htext] at h
  cases negative with
  | true => exact h
  | false =>
      rw [if_neg Bool.false_ne_true]
      split
      · next heq =>
          rw [(List.cons.inj heq).1] at hdigit
          exact absurd hdigit (by decide)
      · exact h

/-- **The text of a number determines it**, up to `canonical`. -/
theorem numberOf?_text (x : Binary64) : numberOf? (numberStyle.text x) = some x.canonical := by
  unfold NumberStyle.text Binary64.canonical
  split
  · rfl
  · next hnan =>
      split
      · next hinf =>
          have hrank : x.rank ≠ 0 := by
            intro hzero
            unfold Binary64.isInfinite at hinf
            rw [hzero] at hinf
            exact absurd hinf (by decide)
          have hx : x = .infinity x.negative :=
            Binary64.eq_of_rank_eq rfl (of_decide_eq_true hinf)
          rw [if_neg hrank]
          have htext : numberStyle.infinity x.negative
              = if x.negative then "-Infinity" else "Infinity" := rfl
          rw [htext, hx]
          cases x.negative <;> rfl
      · next hinf =>
          have hfinite := x.isFinite_iff.mpr ⟨hnan, hinf⟩
          split
          · exact numberOf?_zero
          · next hzero => exact numberOf?_signed (valueOf?_decimalText hzero hfinite)

theorem text_eq_iff (x y : Binary64) :
    numberStyle.text x = numberStyle.text y ↔ x.canonical = y.canonical := by
  constructor
  · intro h
    have := congrArg numberOf? h
    rw [numberOf?_text, numberOf?_text] at this
    exact Option.some.inj this
  · intro h
    rw [← text_canonical x, ← text_canonical y, h]

/-! ## Characters -/

/-- Whether a character can stand in the text of a number. -/
def isNumberChar (c : Char) : Bool :=
  c.isDigit || ['.', '+', '-', 'e', 'N', 'a', 'I', 'n', 'f', 'i', 't', 'y'].contains c

theorem isNumberChar_of_isNumeral {digits : List Char} (h : Digits.IsNumeral digits) :
    ∀ c ∈ digits, isNumberChar c = true := by
  intro c hc
  rw [isNumberChar, h c hc, Bool.true_or]

theorem isNumberChar_repr (n : Nat) : ∀ c ∈ n.repr.toList, isNumberChar c = true := by
  rw [Nat.toList_repr]
  exact isNumberChar_of_isNumeral (Digits.isNumeral_toDigits n)

theorem isNumberChar_positionalText {digits : List Char} (h : Digits.IsNumeral digits)
    (point : Int) : ∀ c ∈ (numberStyle.positionalText digits point).toList,
      isNumberChar c = true := by
  have hzeros := fun n => isNumberChar_of_isNumeral (Digits.isNumeral_replicate_zero n)
  have hwhole : numberStyle.wholeEnd = "" := rfl
  unfold NumberStyle.positionalText
  split
  · simp only [String.toList_append, String.toList_ofList]
    exact List.forall_mem_append.mpr ⟨List.all_eq_true.mp (by decide),
      List.forall_mem_append.mpr ⟨hzeros _, isNumberChar_of_isNumeral h⟩⟩
  · split
    · rw [hwhole, String.append_empty, String.toList_ofList]
      exact List.forall_mem_append.mpr ⟨isNumberChar_of_isNumeral h, hzeros _⟩
    · simp only [String.toList_append, String.toList_ofList]
      exact List.forall_mem_append.mpr ⟨List.forall_mem_append.mpr
        ⟨isNumberChar_of_isNumeral (h.take _), List.all_eq_true.mp (by decide)⟩,
        isNumberChar_of_isNumeral (h.drop _)⟩

theorem isNumberChar_exponentText {digits : List Char} (h : Digits.IsNumeral digits)
    (point : Int) : ∀ c ∈ (numberStyle.exponentText digits point).toList,
      isNumberChar c = true := by
  have hsign : ∀ c ∈ (if point - 1 < 0 then "-" else numberStyle.exponentSign).toList,
      isNumberChar c = true := by
    split
    · exact List.all_eq_true.mp (by decide)
    · exact List.all_eq_true.mp (by decide)
  have hrest := isNumberChar_of_isNumeral (h.drop 1)
  unfold NumberStyle.exponentText
  dsimp only
  simp only [String.toList_append]
  refine List.forall_mem_append.mpr ⟨List.forall_mem_append.mpr ⟨List.forall_mem_append.mpr
    ⟨List.forall_mem_append.mpr ⟨?_, ?_⟩, List.all_eq_true.mp (by decide)⟩, hsign⟩,
    isNumberChar_repr _⟩
  · rw [String.toList_ofList]
    exact isNumberChar_of_isNumeral (h.take 1)
  · split
    · exact List.all_eq_true.mp (by decide)
    · simp only [String.toList_append, String.toList_ofList]
      exact List.forall_mem_append.mpr ⟨List.all_eq_true.mp (by decide), hrest⟩

/-- **The characters of a number**: digits, marks, and the letters of the special values. -/
theorem isNumberChar_text (x : Binary64) :
    ∀ c ∈ (numberStyle.text x).toList, isNumberChar c = true := by
  have hdecimal : ∀ decimal, ∀ c ∈ (numberStyle.decimalText decimal).toList,
      isNumberChar c = true := by
    intro decimal
    have hdigits := Digits.isNumeral_toDigits decimal.coefficient
    unfold NumberStyle.decimalText
    dsimp only
    split
    · exact isNumberChar_positionalText hdigits _
    · exact isNumberChar_exponentText hdigits _
  unfold NumberStyle.text
  split
  · exact List.all_eq_true.mp (by decide)
  · split
    · have htext : numberStyle.infinity x.negative
          = if x.negative then "-Infinity" else "Infinity" := rfl
      rw [htext]
      cases x.negative
      · exact List.all_eq_true.mp (by decide)
      · exact List.all_eq_true.mp (by decide)
    · split
      · have htext : numberStyle.zero x.negative = "0" := rfl
        rw [htext]
        exact List.all_eq_true.mp (by decide)
      · rw [String.toList_append]
        refine List.forall_mem_append.mpr ⟨?_, hdecimal _⟩
        cases x.negative
        · exact List.all_eq_true.mp (by decide)
        · exact List.all_eq_true.mp (by decide)

/-- An argument that is a number ends before the closing parenthesis. -/
theorem paren_not_mem_text (x : Binary64) : ')' ∉ (numberStyle.text x).toList :=
  fun hmem => absurd (isNumberChar_text x _ hmem) (by decide)

end Zod

end SchemaForge
