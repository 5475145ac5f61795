import SchemaForge.Proofs.Import.Produced
import SchemaForge.Zod.Chain

/-!
# `Proofs.Import.ProducedCode` — the code of imported fields

An imported field has the rules of a keyword, of a collection of a keyword, or of a list of literals that
is not empty. So neither of its base texts is one that fields of another origin may have: `never`, which
stands for a list without literals, and `unknown`, which stands for elements that are not primitive. Whatever
else its expression and its type say comes behind the base, and so the code of an imported schema never
rules out all values of a field and never leaves one open.

## Contents
- **Texts.** `Zod.emptyBases` and `TypeScript.emptyTypes`.
- **Rules.** `not_mem_text_base` and `not_mem_text_ofRules`.
- **Schemas.** `schema_isProduced`.
-/

namespace SchemaForge

/-! ## Texts -/

/-- The base constructors that accept nothing, and those that accept anything. -/
def Zod.emptyBases : List String := ["z.never()", "z.unknown()", "z.array(z.unknown())"]

/-- The types that hold nothing, and those that hold anything. -/
def TypeScript.emptyTypes : List String := ["never", "unknown", "unknown[]"]

/-! ## Rules -/

namespace Rules.IsProduced

variable {source : List Char} {rules : Rules}

theorem not_mem_text_base (h : rules.IsProduced source) :
    (Zod.ofRules rules).base.text ∉ Zod.emptyBases := by
  cases h with
  | @keyword kind h =>
      cases kind with
      | string | number | boolean | date => decide
      | enum | array => exact nomatch h
  | @collection kind h =>
      cases kind with
      | string | number | boolean | date => decide
      | enum | array => exact nomatch h
  | @literals values hne _ =>
      obtain ⟨value, values, rfl⟩ := List.exists_cons_of_ne_nil hne
      show "z.enum([" ++ ", ".intercalate ((value :: values).map quote) ++ "])" ∉ Zod.emptyBases
      simp [Zod.emptyBases, ← String.toList_inj]

theorem not_mem_text_ofRules (h : rules.IsProduced source) :
    (TypeScript.Ty.ofRules rules).text ∉ TypeScript.emptyTypes := by
  cases h with
  | @keyword kind h =>
      cases kind with
      | string | number | boolean | date => decide
      | enum | array => exact nomatch h
  | @collection kind h =>
      cases kind with
      | string | number | boolean | date => decide
      | enum | array => exact nomatch h
  | @literals values hne _ =>
      -- the text starts with the quote of the first literal
      have hquote : (TypeScript.Ty.ofRules (.oneOf values)).text.toList.head? = some '\'' := by
        obtain ⟨value, values, rfl⟩ := List.exists_cons_of_ne_nil hne
        rw [TypeScript.Import.toList_text_oneOf hne, List.map_cons,
          TypeScript.Import.toList_quote]
        cases values with
        | nil => rfl
        | cons next values => rfl
      intro hmem
      have hword : ∀ text ∈ TypeScript.emptyTypes, text.toList.head? ≠ some '\'' := by decide
      exact hword _ hmem hquote

end Rules.IsProduced

/-! ## Schemas -/

/-- **What an import can produce.** A schema read from a source has no description and no defaults, its
    names are words, its descriptions are trimmed lines that end neither their comment nor the
    declaration, and its rules are those of a keyword, of a collection of a keyword, or of a list of
    literals without quotes and separators. So its code never has a base that accepts nothing or
    anything. -/
theorem TypeScript.Import.schema_isProduced {source : String} {schema : Schema}
    (h : Import.schema source = .ok schema) :
    schema.IsProduced source.toList ∧
    ∀ field ∈ schema.fields,
      (Zod.ofField field).base.text ∉ Zod.emptyBases ∧
      (TypeScript.Ty.ofRules field.rules).text ∉ TypeScript.emptyTypes := by
  have hproduced := isProduced_of_schema h
  refine ⟨hproduced, fun field hfield => ?_⟩
  have hrules := (hproduced.fields field hfield).rules
  exact ⟨hrules.not_mem_text_base, hrules.not_mem_text_ofRules⟩

/-- An alias with a literal left open, a literal without a value, and elements of no kind. -/
def petSource : String :=
  "type Pet = \x7b/** A *pet* */kind?: 'x | '' | null,any:unknown[]\x7d"

/-- What the pet is read as. -/
def pet : Schema where
  name := "Pet"
  fields :=
    [{ name := "kind", required := false, nullable := true, description := some "A *pet*",
       rules := .oneOf ["x"] },
     { name := "any", rules := .arrayOf .string }]

/-- The elements of no kind are read as text. -/
theorem TypeScript.Import.schema_isProduced_pet :
    Import.schema petSource = .ok pet ∧
    pet.IsProduced petSource.toList ∧
    ∀ field ∈ pet.fields,
      (Zod.ofField field).base.text ∉ Zod.emptyBases ∧
      (TypeScript.Ty.ofRules field.rules).text ∉ TypeScript.emptyTypes := by
  have hread : Import.schema petSource = .ok pet := rfl
  exact ⟨hread, schema_isProduced hread⟩

end SchemaForge
