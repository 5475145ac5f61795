import SchemaForge.Proofs.Import.Declared
import SchemaForge.TypeScript.Import.Reader

/-!
# `Proofs.Import.FirstDeclaration` — text after the first declaration

The first declaration of a text stays the first one when the text goes on. Its own head and body stand
in front of what is added. A place before it at which nothing is declared stays such a place: a
declaration that started there would have its head end at the first opening brace and its body at the
next closing one, and both braces stand in the text already, at the latest those of the declaration
that is there. So the added text completes nothing that starts earlier.

## Contents
- **Marks.** `exists_append_of_mem`, the first mark of a text that goes on.
- **One place.** `declaredAt?_append`, and `declaredAt?_of_append`, before a later declaration.
- **The first declaration.** `findFrom?_append_right` and `schema_append`.
-/

namespace SchemaForge.TypeScript.Import

open Text

variable {text more : List Char} {declared : Declared}

/-! ## Marks -/

/-- The first mark of a text that goes on stands in the text, if the text has the mark. -/
theorem exists_append_of_mem {mark : Char} {front rest : List Char} (hmem : mark ∈ text)
    (h : text ++ more = front ++ mark :: rest) (hfront : mark ∉ front) :
    ∃ back, text = front ++ mark :: back ∧ rest = back ++ more := by
  obtain ⟨first, back, rfl, hfirst⟩ := List.eq_append_cons_of_mem hmem
  rw [List.append_assoc, List.cons_append] at h
  obtain ⟨rfl, rfl⟩ := mark_append_inj h hfirst hfront
  exact ⟨back, rfl, rfl⟩

/-! ## One place -/

/-- A declaration at a place is there whatever follows it. -/
theorem declaredAt?_append (h : declaredAt? text = some declared) (more : List Char) :
    declaredAt? (text ++ more) = some declared := by
  obtain ⟨head, rest, rfl, hdeclared⟩ := declaredAt?_eq_some_iff.mp h
  refine declaredAt?_eq_some_iff.mpr ⟨head, rest ++ more, ?_, hdeclared⟩
  simp only [List.append_assoc, List.cons_append]

/-- **Before a pair of braces nothing is completed by what follows**: a declaration at the front of
    the longer text is one of the text. -/
theorem declaredAt?_of_append {front body rest : List Char}
    (htext : text = front ++ '\x7b' :: (body ++ '\x7d' :: rest))
    (h : declaredAt? (text ++ more) = some declared) : declaredAt? text = some declared := by
  obtain ⟨head, after, hmore, hhead, hne, hbody⟩ := declaredAt?_eq_some_iff.mp h
  -- the head ends at the first opening brace, which stands in the text
  have hopen : '\x7b' ∈ text := by rw [htext]; simp
  obtain ⟨inner, hinner, hafter⟩ := exists_append_of_mem hopen hmore hhead.brace_not_mem
  -- the closing brace of the pair stands behind it
  have hclose : '\x7d' ∈ inner := by
    by_cases hbrace : '\x7b' ∈ front
    · obtain ⟨back, -, hback⟩ :=
        exists_append_of_mem hbrace (htext.symm.trans hinner) hhead.brace_not_mem
      rw [hback]
      simp
    · have hback := (mark_append_inj (htext.symm.trans hinner) hbrace hhead.brace_not_mem).2
      rw [← hback]
      simp
  obtain ⟨back, hback, -⟩ := exists_append_of_mem hclose hafter.symm hbody
  exact declaredAt?_eq_some_iff.mpr ⟨head, back, hback ▸ hinner, hhead, hne, hbody⟩

/-! ## The first declaration -/

/-- **The first declaration stays the first when the text goes on.** -/
theorem findFrom?_append_right {insideWord : Bool} (h : findFrom? insideWord text = some declared)
    (more : List Char) : findFrom? insideWord (text ++ more) = some declared := by
  induction text generalizing insideWord with
  | nil => cases h
  | cons c text ih =>
      -- a place inside a word is passed over in both texts
      cases insideWord with
      | true  => exact ih h
      | false =>
          obtain ⟨front, head, rest, htext, -⟩ := exists_of_findFrom? h
          rw [← List.append_assoc] at htext
          rw [List.cons_append, findFrom?, if_neg Bool.false_ne_true]
          cases hlong : declaredAt? (c :: (text ++ more)) with
          | some found =>
              have hhere := declaredAt?_of_append htext hlong
              rw [findFrom?, if_neg Bool.false_ne_true, hhere] at h
              exact h
          | none =>
              have hnone : declaredAt? (c :: text) = none := by
                refine Option.eq_none_iff_forall_ne_some.mpr fun found hfound => ?_
                cases hlong.symm.trans (declaredAt?_append hfound more)
              rw [findFrom?, if_neg Bool.false_ne_true, hnone] at h
              exact ih h

/-- **The first declaration of a source is imported whatever follows it**: a source that is imported
    gives the same schema in front of any other text. -/
theorem schema_append {source : String} {result : Schema} (h : Import.schema source = .ok result)
    (more : String) : Import.schema (source ++ more) = .ok result := by
  unfold Import.schema at h ⊢
  split at h
  · exact nomatch h
  · next declared hfind =>
      have hlong : Declared.find? (source ++ more).toList = some declared := by
        rw [String.toList_append]
        exact findFrom?_append_right hfind more.toList
      rw [hlong]
      exact h

/-- A declaration behind one without a body and one whose brace never comes, in front of text that
    closes, renames and repeats. -/
theorem schema_append_half :
    Import.schema "type A = \x7b\x7d interface B\ninterface C \x7b id: string"
      = .error .noDeclaration ∧
    Import.schema "type A = \x7b\x7d interface B\ninterface C \x7b id: string\x7d type D ="
      = .ok { name := "C", fields := [{ name := "id", rules := .empty .string }] } ∧
    Import.schema
        ("type A = \x7b\x7d interface B\ninterface C \x7b id: string\x7d type D ="
          ++ " \x7b x: number \x7d\x7d interface C \x7b id: Date \x7d")
      = .ok { name := "C", fields := [{ name := "id", rules := .empty .string }] } := by
  have himport :
      Import.schema "type A = \x7b\x7d interface B\ninterface C \x7b id: string\x7d type D ="
        = .ok { name := "C", fields := [{ name := "id", rules := .empty .string }] } := by
    rfl
  exact ⟨by rfl, himport, schema_append himport _⟩

end SchemaForge.TypeScript.Import
