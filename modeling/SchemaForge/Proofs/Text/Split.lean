import Mathlib.Data.List.Basic
import SchemaForge.Text.Blank

/-!
# `Proofs.Text.Split` — the pieces of a text

Splitting at a character cuts a text at every place where the character stands. The pieces of two
texts with the character between them are those of the one and then those of the other; a piece
stands in the text and does not have the character.

## Contents
- **Joining.** `split_append_cons`, `split_append_separator` and `split_intercalate`.
- **Pieces.** `infix_of_mem_split`.
-/

namespace SchemaForge.Text

/-! ## Joining texts -/

theorem split_ne_nil (separator : Char) (text : List Char) : split separator text ≠ [] := by
  cases text with
  | nil => simp [split]
  | cons c rest =>
      unfold split
      split
      · simp
      · split <;> simp

theorem split_of_not_mem {separator : Char} {text : List Char} (h : separator ∉ text) :
    split separator text = [text] := by
  induction text with
  | nil => rfl
  | cons c text ih =>
      rw [List.mem_cons, not_or] at h
      rw [split, if_neg (Ne.symm h.1), ih h.2]

/-- **A separator between two texts splits them apart.** -/
theorem split_append_cons (separator : Char) (text rest : List Char) :
    split separator (text ++ separator :: rest) = split separator text ++ split separator rest := by
  induction text with
  | nil => exact if_pos rfl
  | cons c text ih =>
      by_cases hc : c = separator
      · rw [List.cons_append, split, if_pos hc, ih, split, if_pos hc, List.cons_append]
      · rw [List.cons_append, split, if_neg hc, ih, split, if_neg hc]
        cases hsplit : split separator text with
        | nil => exact absurd hsplit (split_ne_nil separator text)
        | cons piece pieces => rfl

/-- The first separator ends the first piece. -/
theorem split_append_separator {separator : Char} {text : List Char} (h : separator ∉ text)
    (rest : List Char) :
    split separator (text ++ separator :: rest) = text :: split separator rest := by
  rw [split_append_cons, split_of_not_mem h, List.singleton_append]

/-- **Joined pieces are split apart again.** -/
theorem split_intercalate {separator : Char} {pieces : List (List Char)} (hne : pieces ≠ [])
    (h : ∀ piece ∈ pieces, separator ∉ piece) :
    split separator ([separator].intercalate pieces) = pieces := by
  induction pieces with
  | nil => exact absurd rfl hne
  | cons piece pieces ih =>
      have hpiece := h piece List.mem_cons_self
      cases pieces with
      | nil => rw [List.intercalate_singleton, split_of_not_mem hpiece]
      | cons next pieces =>
          have hrest := ih (by simp) fun p hp => h p (List.mem_cons_of_mem piece hp)
          rw [List.intercalate_cons_cons, List.append_assoc, List.singleton_append,
            split_append_separator hpiece, hrest]

/-! ## Pieces -/

/-- The first piece is what the text starts with. -/
theorem prefix_of_head?_split {separator : Char} {text piece : List Char}
    (h : (split separator text).head? = some piece) : piece <+: text := by
  fun_induction split separator text generalizing piece with
  | case1 => obtain rfl := Option.some.inj h; exact List.nil_prefix
  | case2 rest _ => obtain rfl := Option.some.inj h; exact List.nil_prefix
  | case3 c rest _ hrest _ => exact absurd hrest (split_ne_nil separator rest)
  | case4 c rest _ first pieces hrest ih =>
      obtain rfl := Option.some.inj h
      exact List.cons_prefix_cons.mpr ⟨rfl, ih (by rw [hrest]; rfl)⟩

/-- **A piece stands in the text and has no separator.** -/
theorem infix_of_mem_split {separator : Char} {text piece : List Char}
    (h : piece ∈ split separator text) : piece <:+: text ∧ separator ∉ piece := by
  fun_induction split separator text generalizing piece with
  | case1 =>
      rw [List.mem_singleton.mp h]
      exact ⟨List.infix_rfl, List.not_mem_nil⟩
  | case2 rest ih =>
      rcases List.mem_cons.mp h with rfl | h
      · exact ⟨List.nil_infix, List.not_mem_nil⟩
      · exact ⟨(ih h).1.trans (List.suffix_cons _ rest).isInfix, (ih h).2⟩
  | case3 c rest _ hrest _ => exact absurd hrest (split_ne_nil separator rest)
  | case4 c rest hc first pieces hrest ih =>
      rw [hrest] at ih
      rcases List.mem_cons.mp h with rfl | h
      · have hfirst := prefix_of_head?_split
          (by rw [hrest]; rfl : (split separator rest).head? = some first)
        refine ⟨(List.cons_prefix_cons.mpr ⟨rfl, hfirst⟩).isInfix, ?_⟩
        rw [List.mem_cons, not_or]
        exact ⟨Ne.symm hc, (ih (by simp)).2⟩
      · have hpiece := ih (List.mem_cons_of_mem first h)
        exact ⟨hpiece.1.trans (List.suffix_cons c rest).isInfix, hpiece.2⟩

end SchemaForge.Text
