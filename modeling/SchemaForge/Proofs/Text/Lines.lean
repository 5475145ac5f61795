import SchemaForge.Proofs.Text.Run
import SchemaForge.Text.Comment

/-!
# `Proofs.Text.Lines` — emitted lines as characters

Emitted code is a list of lines joined by line feeds. As characters, every line but the last is
followed by its line feed, so that a scanner meets the lines one after the other.

## Contents
- **Lines.** `toList_intercalate_newline`.
- **Joined parts.** What holds of the parts and of what stands between them: `intercalate_concat`,
  `forall_mem_intercalate` and `isTrimmed_intercalate`.
-/

namespace SchemaForge.Text

/-! ## Lines -/

/-- The characters of a line and its line feed. -/
def lineText (line : String) : List Char := line.toList ++ ['\n']

/-- **Joined lines as characters**: each line but the last with its line feed. -/
theorem toList_intercalate_newline (lines : List String) (last : String) :
    ("\n".intercalate (lines ++ [last])).toList = lines.flatMap lineText ++ last.toList := by
  induction lines with
  | nil => rw [List.nil_append, String.intercalate_singleton, List.flatMap_nil, List.nil_append]
  | cons line lines ih =>
      have hne : lines ++ [last] ≠ [] := by simp
      rw [List.cons_append, String.intercalate_cons_of_ne_nil hne, String.toList_append,
        String.toList_append, ih, List.flatMap_cons, lineText, List.append_assoc, List.append_assoc,
        List.append_assoc]
      rfl

/-! ## Joined parts -/

/-- A last part is joined after its separator. -/
theorem intercalate_concat {α : Type} {separator last : List α} {parts : List (List α)}
    (hne : parts ≠ []) :
    separator.intercalate (parts ++ [last]) = separator.intercalate parts ++ (separator ++ last) := by
  induction parts with
  | nil => exact absurd rfl hne
  | cons part parts ih =>
      cases parts with
      | nil =>
          rw [List.singleton_append, List.intercalate_cons_cons, List.intercalate_singleton,
            List.intercalate_singleton, List.append_assoc]
      | cons next parts =>
          rw [List.cons_append, List.cons_append, List.intercalate_cons_cons, ← List.cons_append,
            ih (by simp), List.intercalate_cons_cons]
          simp only [List.append_assoc]

/-- A property of characters that holds in the separator and in all parts holds in what they are
    joined to. -/
theorem forall_mem_intercalate {P : Char → Prop} {separator : List Char} {parts : List (List Char)}
    (hseparator : ∀ c ∈ separator, P c) (hparts : ∀ part ∈ parts, ∀ c ∈ part, P c) :
    ∀ c ∈ separator.intercalate parts, P c := by
  induction parts with
  | nil => simp [List.intercalate_nil]
  | cons part parts ih =>
      have hpart := hparts part (by simp)
      have hrest := ih fun q hq => hparts q (by simp [hq])
      cases parts with
      | nil => rw [List.intercalate_singleton]; exact hpart
      | cons next parts =>
          rw [List.intercalate_cons_cons]
          intro c hc
          rcases List.mem_append.mp hc with hc | hc
          · rcases List.mem_append.mp hc with hc | hc
            · exact hpart c hc
            · exact hseparator c hc
          · exact hrest c hc

/-- Joined parts start and end as the first and the last of them do. -/
theorem isTrimmed_intercalate {separator : List Char} {parts : List (List Char)} (hne : parts ≠ [])
    (h : ∀ part ∈ parts, IsTrimmed part ∧ part ≠ []) :
    IsTrimmed (separator.intercalate parts) ∧ separator.intercalate parts ≠ [] := by
  induction parts with
  | nil => exact absurd rfl hne
  | cons part parts ih =>
      obtain ⟨hpart, hpart_ne⟩ := h part (by simp)
      cases parts with
      | nil =>
          rw [List.intercalate_singleton]
          exact ⟨hpart, hpart_ne⟩
      | cons next parts =>
          obtain ⟨hrest, hrest_ne⟩ := ih (by simp) fun p hp => h p (by simp [hp])
          rw [List.intercalate_cons_cons, List.append_assoc]
          refine ⟨⟨fun c hc => ?_, fun c hc => ?_⟩, by simp [hpart_ne]⟩
          · cases hp : part with
            | nil => exact absurd hp hpart_ne
            | cons d part =>
                rw [hp] at hc
                exact hpart.1 c (by rw [hp]; exact hc)
          · rw [← List.append_assoc, getLast?_append_right hrest_ne] at hc
            exact hrest.2 c hc

end SchemaForge.Text
