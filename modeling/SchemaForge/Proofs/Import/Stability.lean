import SchemaForge.Proofs.Import.Produced
import SchemaForge.Proofs.Import.SourceUnit

/-!
# `Proofs.Import.Stability` — an imported schema is imported as itself

An import keeps only what a declaration can show, and the declaration emitted for it shows all of
that: its rules are those that their static type shows, its descriptions fit in one line, and its
literals stand between quotes as they are unless they hold a backslash. So the declaration is read as
the same schema under its name with the suffix, without its descriptions if comments are off.

## Contents
- **Parts.** What comes back of what was produced: `Rules.IsProduced.recovered_eq`, and the same of
  fields and schemas; `Rules.IsProduced.hasPlainValues` and `IsProducedDoc.isDocLine`.
- **Schemas.** `isRecoverable_of_isProduced` and `schema_declaration_of_schema`.
-/

namespace SchemaForge

open Text TypeScript.Import

/-! ## What is produced is recoverable -/

/-- The static type of imported rules shows all of them. -/
theorem Rules.IsProduced.recovered_eq {source : List Char} {rules : Rules}
    (h : rules.IsProduced source) : rules.recovered = rules := by
  cases h with
  | @keyword kind hkind =>
      cases kind with
      | enum  => exact nomatch hkind
      | array => exact nomatch hkind
      | _     => rfl
  | @collection kind hkind =>
      show Rules.arrayOf (if kind.isPrimitive then kind else .string) = _
      rw [if_pos hkind]
  | @literals values hne hvalues =>
      show (if values = [] then Rules.empty .string else .oneOf values) = _
      rw [if_neg hne]

/-- Without a backslash in the source, literals are written as they are. -/
theorem Rules.IsProduced.hasPlainValues {source : List Char} {rules : Rules}
    (h : rules.IsProduced source) (hback : '\\' ∉ source) : rules.HasPlainValues := by
  cases h with
  | @keyword kind hkind =>
      cases kind with
      | enum => exact nomatch hkind
      | _    => exact trivial
  | collection _ => exact trivial
  | literals hne hvalues =>
      intro value hvalue
      obtain ⟨hvalue_ne, hsource, hplain⟩ := hvalues value hvalue
      refine ⟨hvalue_ne, fun c hc => ?_⟩
      have hnot : c ≠ '\\' := fun he => hback (he ▸ hsource hc)
      have hothers := hplain c hc
      simp only [List.mem_cons, List.not_mem_nil, or_false, not_or] at hothers ⊢
      exact ⟨hothers.1, hothers.2.1, hnot, hothers.2.2⟩

theorem IsProducedDoc.isDocLine {text : String} (h : IsProducedDoc text)
    (hstar : text.toList.head? ≠ some '*') : IsDocLine text :=
  ⟨h.line, h.trimmed, hstar, h.noClose, h.brace⟩

/-- The member of an imported field shows all of it, or all but its description. -/
theorem Field.IsProduced.recovered_eq {source : List Char} {field : Field} (settings : Settings)
    (h : field.IsProduced source) :
    field.recovered settings
      = { field with description := if settings.comments then field.description else none } := by
  obtain ⟨name, required, nullable, defaultValue, description, rules⟩ := field
  obtain ⟨-, hdefault, hdescription, hrules⟩ := h
  have hdoc : nonempty? description = description := by
    cases description with
    | none => rfl
    | some text => exact if_neg (hdescription text rfl).ne_empty
  have hnone : defaultValue = none := hdefault
  unfold Field.recovered Settings.fieldDoc Field.doc
  rw [hdoc, hrules.recovered_eq, hnone]

/-- What comes back of an imported schema is the schema under its name with the suffix, with its
    descriptions if they are emitted. -/
theorem Schema.IsProduced.recovered_eq {source : List Char} {schema : Schema} (settings : Settings)
    (h : schema.IsProduced source) :
    schema.recovered settings
      = { schema with
          name := schema.name ++ settings.typeSuffix
          fields := schema.fields.map fun field =>
            { field with description := if settings.comments then field.description else none } } := by
  have hfields : schema.fields.map (Field.recovered settings) = schema.fields.map fun field =>
      { field with description := if settings.comments then field.description else none } :=
    List.map_congr_left fun field hfield => (h.fields field hfield).recovered_eq settings
  rw [Schema.recovered, hfields, h.description]
  rfl

end SchemaForge

namespace SchemaForge.TypeScript.Import

open Text

/-! ## Schemas -/

/-- **An imported schema can be read back from its declaration.** -/
theorem isRecoverable_of_isProduced {source : List Char} {schema : Schema} {settings : Settings}
    (h : schema.IsProduced source) (hback : '\\' ∉ source)
    (hsuffix : ∀ c ∈ settings.typeSuffix.toList, isWord c = true)
    (hstar : settings.comments = true → ∀ field ∈ schema.fields, ∀ text,
      field.description = some text → text.toList.head? ≠ some '*') :
    IsRecoverable settings schema where
  typeName := by
    have htext : (settings.typeName schema).toList
        = schema.name.toList ++ settings.typeSuffix.toList := String.toList_append
    refine ⟨fun he => ?_, fun c hc => ?_⟩
    · rw [he] at htext
      exact h.name.ne_empty (String.toList_eq_nil_iff.mp (List.append_eq_nil_iff.mp htext.symm).1)
    · rw [htext] at hc
      exact (List.mem_append.mp hc).elim (h.name.isWord c) (hsuffix c)
  names := fun field hfield => (h.fields field hfield).name
  values := fun field hfield => (h.fields field hfield).rules.hasPlainValues hback
  schemaDoc := by
    intro _ text hdoc
    rw [Schema.doc, h.description] at hdoc
    exact nomatch hdoc
  fieldDocs := by
    intro hcomments field hfield text hdoc
    have hsome : field.description = some text := eq_some_of_nonempty? hdoc
    exact ((h.fields field hfield).description text hsome).isDocLine
      (hstar hcomments field hfield text hsome)

/-- **Importing is stable**: the declaration of an imported schema, in a style that lists the members,
    is imported as the same schema under its name with the suffix. Without comments the descriptions
    are gone; with comments they are kept if none of them starts with a star. -/
theorem schema_declaration_of_schema {source : String} {schema : Schema} {settings : Settings}
    (hback : '\\' ∉ source.toList) (himport : Import.schema source = .ok schema)
    (hstyle : settings.typeStyle ≠ .infer)
    (hsuffix : ∀ c ∈ settings.typeSuffix.toList, isWord c = true) :
    (settings.comments = false →
      Import.schema (declaration schema settings)
        = .ok { schema with
            name := schema.name ++ settings.typeSuffix
            fields := schema.fields.map fun field => { field with description := none } }) ∧
    (settings.comments = true →
      (∀ field ∈ schema.fields, ∀ text,
        field.description = some text → text.toList.head? ≠ some '*') →
      Import.schema (declaration schema settings)
        = .ok { schema with name := schema.name ++ settings.typeSuffix }) := by
  have hproduced := isProduced_of_schema himport
  have hread : (settings.comments = true → ∀ field ∈ schema.fields, ∀ text,
        field.description = some text → text.toList.head? ≠ some '*') →
      Import.schema (declaration schema settings) = .ok (schema.recovered settings) := by
    intro hstar
    have hrecoverable := isRecoverable_of_isProduced hproduced hback hsuffix hstar
    have hexplicit := explicit_eq_declaration schema settings
    rw [Settings.listing_eq_self hstyle] at hexplicit
    have hdoc : ∀ text, settings.schemaDoc schema = some text → '\x7b' ∉ text.toList := by
      intro text hdoc
      rw [Settings.schemaDoc, Schema.doc, hproduced.description] at hdoc
      exact absurd hdoc (by simp [nonempty?])
    rw [← hexplicit, schema_explicit _ hrecoverable.typeName hdoc, shown_eq_recovered hrecoverable]
  -- what is recovered differs from the schema in its name and, without comments, its descriptions
  rw [hproduced.recovered_eq settings] at hread
  constructor
  · intro hoff
    rw [hread fun hon => absurd (hoff.symm.trans hon) (by simp), hoff]
    rfl
  · intro hon hstar
    rw [hread fun _ => hstar, hon]
    simp

/-- A text with a declaration that does not come to its brace, a list of literals with a comment mark
    in one of them, a member inside a comment, and a type that only has a date in it. -/
def shopSource : String :=
  "type type = interface Shop \x7b/** Kinds\n * 'of' */ kinds?: \"a b\" | '// c' | null"
    ++ " // x; y: Date[], z: Updates\n\x7d"

/-- What the shop is read as. -/
def shop : Schema where
  name := "Shop"
  fields :=
    [{ name := "kinds", required := false, nullable := true, description := some "Kinds 'of'",
       rules := .oneOf ["a b", "// c"] },
     { name := "y", rules := .arrayOf .date },
     { name := "z", rules := .empty .date }]

/-- The shop is read back from its alias with comments, and from its interface without them. -/
theorem schema_declaration_of_schema_shop :
    '\\' ∉ shopSource.toList ∧ Import.schema shopSource = .ok shop ∧
    Import.schema (declaration shop { typeStyle := .type, typeSuffix := "Type" })
      = .ok { shop with name := "ShopType" } ∧
    Import.schema (declaration shop { typeStyle := .interface, comments := false })
      = .ok { shop with fields := shop.fields.map fun field => { field with description := none } } := by
  have hback : '\\' ∉ shopSource.toList := by decide +kernel
  have himport : Import.schema shopSource = .ok shop := rfl
  have hstar : ∀ field ∈ shop.fields, ∀ text,
      field.description = some text → text.toList.head? ≠ some '*' := by
    simp [shop]
  refine ⟨hback, himport, ?_, ?_⟩
  · exact (@schema_declaration_of_schema _ _ { typeStyle := .type, typeSuffix := "Type" } hback himport
      (by decide) (List.all_eq_true.mp (by decide))).2 rfl hstar
  · exact (@schema_declaration_of_schema _ _ { typeStyle := .interface, comments := false } hback
      himport (by decide) (List.all_eq_true.mp (by decide))).1 rfl

end SchemaForge.TypeScript.Import
