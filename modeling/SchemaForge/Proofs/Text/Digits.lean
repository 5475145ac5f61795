import SchemaForge.Proofs.Text.Run
import SchemaForge.Text.Digits

/-!
# `Proofs.Text.Digits` — decimal numerals read back

A numeral is written with the digits of the standard library and read with those of `Text.Digits`.
The two agree on the value of every run of decimal digits, so a numeral at the front of a text is
taken off whole and has the value it was written for.

## Contents
- **Digits.** `IsNumeral`, runs of decimal digits, and `span_append`.
- **Values.** `value_toDigits`, `value_append_zeros`.
- **The first digit.** `exists_head_toDigits`: no positive number starts with a zero.
-/

namespace SchemaForge.Digits

open Text

/-! ## Runs of decimal digits -/

/-- A run of decimal digits. -/
def IsNumeral (digits : List Char) : Prop := ∀ c ∈ digits, c.isDigit = true

theorem digitValue?_of_isDigit {c : Char} (h : c.isDigit = true) :
    digitValue? c = some (c.toNat - '0'.toNat) := by
  have hrange : '0' ≤ c ∧ c ≤ '9' := by simpa [Char.isDigit, Char.le_def] using h
  unfold digitValue?
  rw [if_pos hrange]

theorem isDigitOf_eq_isDigit (c : Char) : isDigitOf 10 c = c.isDigit := by
  cases h : c.isDigit with
  | true =>
      have hrange : '0' ≤ c ∧ c ≤ '9' := by simpa [Char.isDigit, Char.le_def] using h
      have hlast : c.toNat ≤ '9'.toNat := hrange.2
      have hnine : '9'.toNat = 57 := rfl
      have hzero : '0'.toNat = 48 := rfl
      unfold isDigitOf
      rw [digitValue?_of_isDigit h]
      simp only [decide_eq_true_eq]
      omega
  | false =>
      have hrange : ¬ ('0' ≤ c ∧ c ≤ '9') := by
        intro hrange
        have : c.isDigit = true := by simpa [Char.isDigit, Char.le_def] using hrange
        rw [h] at this
        exact nomatch this
      unfold isDigitOf digitValue?
      rw [if_neg hrange]
      split
      · next value hvalue =>
          split at hvalue
          · obtain rfl := Option.some.inj hvalue
            simp
          · split at hvalue
            · obtain rfl := Option.some.inj hvalue
              simp
            · exact nomatch hvalue
      · rfl

theorem isNumeral_toDigits (n : Nat) : IsNumeral (Nat.toDigits 10 n) := by
  intro c hc
  exact Nat.isDigit_of_mem_toDigits (by decide) (by decide) hc

theorem isNumeral_replicate_zero (n : Nat) : IsNumeral (List.replicate n '0') := by
  intro c hc
  rw [List.eq_of_mem_replicate hc]
  decide

theorem IsNumeral.append {digits more : List Char} (h : IsNumeral digits) (h' : IsNumeral more) :
    IsNumeral (digits ++ more) := by
  intro c hc
  rcases List.mem_append.mp hc with hc | hc
  · exact h c hc
  · exact h' c hc

theorem IsNumeral.take {digits : List Char} (h : IsNumeral digits) (n : Nat) :
    IsNumeral (digits.take n) := fun c hc => h c (List.mem_of_mem_take hc)

theorem IsNumeral.drop {digits : List Char} (h : IsNumeral digits) (n : Nat) :
    IsNumeral (digits.drop n) := fun c hc => h c (List.mem_of_mem_drop hc)

/-- A text goes on with no decimal digit. -/
def EndsNumeral (rest : List Char) : Prop := StopsAt Char.isDigit rest

/-- The run of digits at the front of a text is taken off whole. -/
theorem span_append {digits rest : List Char} (h : IsNumeral digits) (stop : EndsNumeral rest) :
    span 10 (digits ++ rest) = (digits, rest) := by
  have hclass : isDigitOf 10 = Char.isDigit := funext isDigitOf_eq_isDigit
  unfold span
  rw [hclass, takeWhile_run h stop, dropWhile_run h stop]

/-! ## Values -/

theorem valueFrom_eq_ofDigitChars {digits : List Char} (h : IsNumeral digits) (start : Nat) :
    valueFrom 10 start digits = Nat.ofDigitChars 10 digits start := by
  induction digits generalizing start with
  | nil => rw [valueFrom, Nat.ofDigitChars_nil]
  | cons c rest ih =>
      have hc := h c List.mem_cons_self
      rw [valueFrom, Nat.ofDigitChars_cons, digitValue?_of_isDigit hc, Option.getD_some,
        Nat.mul_comm, ih fun d hd => h d (List.mem_cons_of_mem c hd)]

theorem value_eq_ofDigitChars {digits : List Char} (h : IsNumeral digits) :
    value 10 digits = Nat.ofDigitChars 10 digits 0 := valueFrom_eq_ofDigitChars h 0

/-- **The digits of a number have its value.** -/
@[simp] theorem value_toDigits (n : Nat) : value 10 (Nat.toDigits 10 n) = n := by
  rw [value_eq_ofDigitChars (isNumeral_toDigits n), Nat.ofDigitChars_ten_toDigits]

/-- Zeros after a numeral multiply its value. -/
theorem value_append_zeros {digits : List Char} (h : IsNumeral digits) (zeros : Nat) :
    value 10 (digits ++ List.replicate zeros '0') = value 10 digits * Nat.pow 10 zeros := by
  rw [value_eq_ofDigitChars (h.append (isNumeral_replicate_zero zeros)), value_eq_ofDigitChars h,
    Nat.ofDigitChars_append, Nat.ofDigitChars_replicate_zero, Nat.mul_comm]
  rfl

/-- Zeros before a numeral change nothing. -/
theorem value_zeros_append {digits : List Char} (h : IsNumeral digits) (zeros : Nat) :
    value 10 (List.replicate zeros '0' ++ digits) = value 10 digits := by
  rw [value_eq_ofDigitChars ((isNumeral_replicate_zero zeros).append h), value_eq_ofDigitChars h,
    Nat.ofDigitChars_append, Nat.ofDigitChars_replicate_zero, Nat.mul_zero]

/-! ## The first digit -/

theorem digitChar_ne_zero {n : Nat} (hpos : 0 < n) (hlt : n < 10) : n.digitChar ≠ '0' := by
  intro h
  have := Nat.toNat_digitChar_of_lt_ten hlt
  rw [h] at this
  have hzero : '0'.toNat = 48 := rfl
  omega

/-- **A positive number does not start with a zero.** -/
theorem exists_head_toDigits {n : Nat} (hpos : 0 < n) :
    ∃ first rest, Nat.toDigits 10 n = first :: rest ∧ first ≠ '0' := by
  induction n using Nat.strongRecOn with
  | ind n ih =>
      rcases Nat.lt_or_ge n 10 with hlt | hge
      · exact ⟨n.digitChar, [], Nat.toDigits_of_lt_base hlt, digitChar_ne_zero hpos hlt⟩
      · obtain ⟨first, rest, hdigits, hfirst⟩ := ih (n / 10) (by omega) (by omega)
        refine ⟨first, rest ++ [(n % 10).digitChar], ?_, hfirst⟩
        rw [Nat.toDigits_of_base_le (by decide) hge, hdigits, List.cons_append]

end SchemaForge.Digits
