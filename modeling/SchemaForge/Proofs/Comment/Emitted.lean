import SchemaForge.Proofs.Comment.Description
import SchemaForge.Proofs.Zod.Character
import SchemaForge.SourceUnit

/-!
# `Proofs.Comment.Emitted` — descriptions in emitted code

With comments, the emitted code has the lines of the code without comments, in order, and between them
the lines of the comments. Deleting the block comments leaves the code's own lines as they are, since
no other text has a star; of each comment it leaves what its description lets out. So the code comes
back without its empty lines exactly when every description it shows is inert.

## Contents
- **Texts.** `Schema.codeTexts` and `Schema.docs`, the descriptions apart from all other texts.
- **Lines.** The parts of each declaration with and without comments.
- **Emitted code.** `SameCode`, and `sameCode_emitted_iff` for every emitter.
-/

namespace SchemaForge

/-! ## Texts of a schema -/

/-- The texts of a field other than its description. -/
def Field.codeTexts (field : Field) : List String :=
  field.name :: field.defaultValue.toList ++ field.rules.texts

/-- The texts of a schema and its fields other than their descriptions. -/
def Schema.codeTexts (schema : Schema) : List String :=
  schema.name :: schema.fields.flatMap Field.codeTexts

/-- The descriptions that are there, of the schema and then of its fields. -/
def Schema.docs (schema : Schema) : List String :=
  schema.doc.toList ++ schema.fields.flatMap fun field => field.doc.toList

/-- The descriptions that the declaration of a type shows. An inferred alias has no members. -/
def Schema.typeDocs (schema : Schema) : TypeStyle → List String
  | .infer             => schema.doc.toList
  | .interface | .type => schema.docs

/-- The same settings with no descriptions emitted. -/
def Settings.withoutComments (settings : Settings) : Settings := { settings with comments := false }

namespace Comment

open Text

/-! ## Stars -/

/-- No text of a schema other than its descriptions, and no name made from it, has a star. -/
structure LacksStar (settings : Settings) (schema : Schema) : Prop where
  texts : ∀ text ∈ schema.codeTexts, '*' ∉ text.toList
  schemaSuffix : '*' ∉ settings.schemaSuffix.toList
  typeSuffix : '*' ∉ settings.typeSuffix.toList

theorem star_not_mem_ty {field : Field} (h : ∀ text ∈ field.rules.texts, '*' ∉ text.toList) :
    '*' ∉ (TypeScript.Ty.ofField field).text.toList := by
  have hbase : '*' ∉ (TypeScript.Ty.ofRules field.rules).text.toList := by
    generalize field.rules = rules at h
    cases rules with
    | string _  => exact (by decide : '*' ∉ "string".toList)
    | number _  => exact (by decide : '*' ∉ "number".toList)
    | boolean   => exact (by decide : '*' ∉ "boolean".toList)
    | date _    => exact (by decide : '*' ∉ "Date".toList)
    | array r _ =>
        show '*' ∉ (TypeScript.Ty.array (TypeScript.Ty.element r.item)).text.toList
        cases r.item <;> decide
    | enum r =>
        obtain ⟨values⟩ := r
        cases values with
        | nil => decide
        | cons value values =>
            have hunion : ∀ c ∈ (" | ".intercalate ((value :: values).map quote)).toList, c ≠ '*' := by
              rw [String.toList_intercalate]
              have hseparator : '*' ∉ " | ".toList := by decide
              refine forall_mem_intercalate (fun c hc he => hseparator (he ▸ hc)) ?_
              rintro part hpart c hc rfl
              obtain ⟨literal, hliteral, rfl⟩ := List.mem_map.mp hpart
              obtain ⟨v, hv, rfl⟩ := List.mem_map.mp hliteral
              exact Zod.not_mem_quote (by decide) (h v hv) hc
            exact fun hmem => hunion '*' hmem rfl
  unfold TypeScript.Ty.ofField
  split
  · simp [TypeScript.Ty.text, hbase]
  · exact hbase

theorem star_not_mem_semicolon (settings : Settings) : '*' ∉ settings.semicolon.toList :=
  settings.not_mem_semicolon (by decide)

theorem star_not_mem_exportWord (settings : Settings) : '*' ∉ settings.exportWord.toList :=
  settings.not_mem_exportWord (by decide)

section

variable {settings : Settings} {schema : Schema} (h : LacksStar settings schema)
include h

theorem star_not_mem_schemaName : '*' ∉ (settings.schemaName schema).toList :=
  settings.not_mem_schemaName (h.texts _ (by simp [Schema.codeTexts])) h.schemaSuffix

theorem star_not_mem_typeName : '*' ∉ (settings.typeName schema).toList :=
  settings.not_mem_typeName (h.texts _ (by simp [Schema.codeTexts])) h.typeSuffix

/-- The line of an inferred alias. -/
theorem star_not_mem_alias :
    '*' ∉ (settings.exportWord ++ "type " ++ settings.typeName schema ++ " = z.infer<typeof "
      ++ settings.schemaName schema ++ ">" ++ settings.semicolon).toList := by
  simp [star_not_mem_exportWord settings, star_not_mem_typeName h, star_not_mem_schemaName h,
    star_not_mem_semicolon settings]

theorem star_not_mem_codeTexts {field : Field} (hfield : field ∈ schema.fields) :
    ∀ text ∈ field.codeTexts, '*' ∉ text.toList := fun text htext =>
  h.texts text (List.mem_cons_of_mem _ (List.mem_flatMap.mpr ⟨field, hfield, htext⟩))

end

theorem star_not_mem_expr {field : Field} (h : ∀ text ∈ field.codeTexts, '*' ∉ text.toList) :
    '*' ∉ (Zod.ofField field).text.toList := by
  -- the expression does not read the description
  have hbare : Zod.ofField field = Zod.ofField { field with description := none } := rfl
  rw [hbare]
  exact Zod.not_mem_text_ofField (by decide) h

/-! ## Declarations with and without comments -/

/-- A text with comments shows the lines of a bare one, and no others exactly when the given
    descriptions are inert. Both end in the same line. -/
def DocumentedText (descriptions : List String) (noted bare : String) : Prop :=
  ∃ (front bareFront : List Char) (last : String),
    noted.toList = front ++ last.toList ∧ bare.toList = bareFront ++ last.toList ∧
    '*' ∉ last.toList ∧ Documented descriptions front bareFront

/-- A text of whole lines. -/
theorem DocumentedText.lineText {descriptions : List String} {noted bare : String}
    (h : DocumentedText descriptions noted bare) :
    Documented descriptions (lineText noted) (lineText bare) := by
  obtain ⟨front, bareFront, last, hnoted, hbare, hlast, hfront⟩ := h
  have := hfront.append (Documented.line hlast)
  simpa [Text.lineText, hnoted, hbare] using this

/-- Deleting the block comments and then the empty lines of a text gives the other text without its
    empty lines. -/
def SameCode (noted bare : String) : Prop :=
  withoutBlankLines (withoutBlockComments noted.toList) = withoutBlankLines bare.toList

theorem DocumentedText.sameCode_iff {descriptions : List String} {noted bare : String}
    (h : DocumentedText descriptions noted bare) :
    SameCode noted bare ↔ ∀ text ∈ descriptions, IsInert text := by
  obtain ⟨front, bareFront, last, htext, hbare, hlast, shown, own, hshown, hown, -, hiff⟩ := h
  have hcode : codeLines last.toList = visibleLines last.toList := by
    rw [codeLines, withoutBlockComments_of_not_mem hlast]
  have hnoted := hshown last.toList
  rw [hcode] at hnoted
  rw [SameCode, withoutBlankLines_eq_iff, htext, hbare, hown, ← hiff]
  show codeLines _ = _ ↔ _
  rw [hnoted, List.append_left_inj]

section

variable {settings : Settings} {schema : Schema} (hcomments : settings.comments = true)
include hcomments

theorem schemaDoc_of_comments : settings.schemaDoc schema = schema.doc := if_pos hcomments

theorem fieldDoc_of_comments (field : Field) : settings.fieldDoc field = field.doc :=
  if_pos hcomments

variable (h : LacksStar settings schema)
include h

/-! ### Validators -/

theorem documented_headLines :
    Documented schema.doc.toList ((Zod.headLines schema settings).flatMap lineText)
      ((Zod.headLines schema settings.withoutComments).flatMap lineText) := by
  let front : List String := ["import \x7b z \x7d from 'zod'" ++ settings.semicolon, ""]
  let last : String := settings.exportWord ++ "const " ++ settings.schemaName schema ++ " = z.object(\x7b"
  have hfront : ∀ line ∈ front, '*' ∉ line.toList := by
    simp [front, star_not_mem_semicolon settings]
  have hlast : '*' ∉ last.toList := by
    simp [last, star_not_mem_exportWord settings, star_not_mem_schemaName h]
  have hnoted : Zod.headLines schema settings = front ++ Comment.block? schema.doc [] ++ [last] := by
    rw [Zod.headLines, schemaDoc_of_comments hcomments]
  have hbare : Zod.headLines schema settings.withoutComments = front ++ [last] := rfl
  have hblock := Documented.block? schema.doc [] (List.forall_mem_nil _)
  have := ((Documented.lines hfront).append hblock).append (Documented.line hlast)
  rw [hnoted, hbare]
  simpa [List.flatMap_append] using this

omit h in
/-- A field in a validator: its comment and its line. -/
theorem documented_fieldLines {field : Field} (htexts : ∀ text ∈ field.codeTexts, '*' ∉ text.toList)
    {ending : String} (hending : '*' ∉ ending.toList) :
    Documented field.doc.toList ((Zod.fieldLines settings field ending).flatMap lineText)
      ((Zod.fieldLines settings.withoutComments field ending).flatMap lineText) := by
  have hname : '*' ∉ field.name.toList := htexts _ (by simp [Field.codeTexts])
  have hline : '*' ∉ ("  " ++ field.name ++ ": " ++ (Zod.ofField field).text ++ ending).toList := by
    simp [hname, star_not_mem_expr htexts, hending]
  have := (Documented.member? field.doc).append (Documented.line hline)
  have hbare : Zod.fieldLines settings.withoutComments field ending
      = ["  " ++ field.name ++ ": " ++ (Zod.ofField field).text ++ ending] := rfl
  rw [Zod.fieldLines, fieldDoc_of_comments hcomments, hbare]
  simpa [List.flatMap_append] using this

theorem documented_bodyLines (fields : List Field) (hsub : fields ⊆ schema.fields) :
    Documented (fields.flatMap fun field => field.doc.toList)
      ((Zod.bodyLines settings fields).flatMap lineText)
      ((Zod.bodyLines settings.withoutComments fields).flatMap lineText) := by
  -- the recursion of `bodyLines`: no field, the last field, and a field with others after it
  fun_induction Zod.bodyLines settings fields with
  | case1 => exact .nil
  | case2 field =>
      have htexts := star_not_mem_codeTexts h (hsub (List.mem_singleton_self field))
      have := documented_fieldLines hcomments htexts (by decide : '*' ∉ "".toList)
      simpa [Zod.bodyLines] using this
  | case3 field next rest ih =>
      have htexts := star_not_mem_codeTexts h (hsub (List.mem_cons_self (a := field)))
      have hfield := documented_fieldLines hcomments htexts (by decide : '*' ∉ ",".toList)
      have := hfield.append (ih fun f hf => hsub (List.mem_cons_of_mem _ hf))
      rw [Zod.bodyLines, List.flatMap_append, List.flatMap_append, List.flatMap_cons]
      exact this

/-- A validator shows all descriptions. -/
theorem documented_validator : DocumentedText schema.docs (Zod.declaration schema settings)
    (Zod.declaration schema settings.withoutComments) := by
  have hlast : '*' ∉ ("\x7d)" ++ settings.semicolon).toList := by
    simp [star_not_mem_semicolon settings]
  have hbody := documented_bodyLines hcomments h schema.fields fun _ hf => hf
  have hlines := (documented_headLines hcomments h).append hbody
  refine ⟨_, _, "\x7d)" ++ settings.semicolon, ?_, ?_, hlast, hlines⟩
  · rw [Zod.declaration, toList_intercalate_newline, List.flatMap_append]
  · rw [Zod.declaration, toList_intercalate_newline, List.flatMap_append]
    rfl

/-! ### Types -/

omit h in
/-- A field in a type that lists its members: its comment and its line. -/
theorem documented_memberLines {field : Field}
    (htexts : ∀ text ∈ field.codeTexts, '*' ∉ text.toList) :
    Documented field.doc.toList ((TypeScript.memberLines settings field).flatMap lineText)
      ((TypeScript.memberLines settings.withoutComments field).flatMap lineText) := by
  let line : String := "  " ++ field.name ++ (if field.required then "" else "?") ++ ": "
    ++ (TypeScript.Ty.ofField field).text ++ settings.semicolon
  have hname : '*' ∉ field.name.toList := htexts _ (by simp [Field.codeTexts])
  have hmark : '*' ∉ (if field.required then "" else "?").toList := by
    split <;> decide
  have hty : '*' ∉ (TypeScript.Ty.ofField field).text.toList :=
    star_not_mem_ty fun text htext => htexts text (List.mem_append_right _ htext)
  have hline : '*' ∉ line.toList := by
    simp only [line, String.toList_append, List.mem_append, not_or]
    exact ⟨⟨⟨⟨⟨by decide, hname⟩, hmark⟩, by decide⟩, hty⟩, star_not_mem_semicolon settings⟩
  have hnoted : TypeScript.memberLines settings field = Comment.member? field.doc ++ [line] := by
    rw [TypeScript.memberLines, fieldDoc_of_comments hcomments]
  have hbare : TypeScript.memberLines settings.withoutComments field = [line] := rfl
  have := (Documented.member? field.doc).append (Documented.line hline)
  rw [hnoted, hbare]
  simpa [List.flatMap_append] using this

theorem documented_members (fields : List Field) (hsub : fields ⊆ schema.fields) :
    Documented (fields.flatMap fun field => field.doc.toList)
      ((fields.flatMap (TypeScript.memberLines settings)).flatMap lineText)
      ((fields.flatMap (TypeScript.memberLines settings.withoutComments)).flatMap lineText) := by
  induction fields with
  | nil => exact .nil
  | cons field fields ih =>
      have htexts := star_not_mem_codeTexts h (hsub (List.mem_cons_self (a := field)))
      have hfield := documented_memberLines hcomments htexts
      have := hfield.append (ih fun f hf => hsub (List.mem_cons_of_mem _ hf))
      rw [List.flatMap_cons, List.flatMap_cons, List.flatMap_cons, List.flatMap_append,
        List.flatMap_append]
      exact this

/-- A type that lists its members shows all descriptions. -/
theorem documented_explicit (asInterface : Bool) :
    DocumentedText schema.docs (TypeScript.explicit schema settings asInterface)
      (TypeScript.explicit schema settings.withoutComments asInterface) := by
  have hopen : '*' ∉ (TypeScript.openLine schema settings asInterface).toList := by
    have hname := star_not_mem_typeName h
    rw [TypeScript.openLine, String.toList_append, List.mem_append, not_or]
    refine ⟨star_not_mem_exportWord settings, ?_⟩
    split
    · simp [hname]
    · simp [hname]
  have hlast : '*' ∉ (TypeScript.closeLine settings asInterface).toList := by
    unfold TypeScript.closeLine
    split
    · decide
    · simp [star_not_mem_semicolon settings]
  have hblock := Documented.block? schema.doc [] (List.forall_mem_nil _)
  have hmembers := documented_members hcomments h schema.fields fun _ hf => hf
  have hlines := (hblock.append (Documented.line hopen)).append hmembers
  rw [List.append_nil] at hlines
  refine ⟨_, _, TypeScript.closeLine settings asInterface, ?_, ?_, hlast, hlines⟩
  · rw [TypeScript.explicit, toList_intercalate_newline, schemaDoc_of_comments hcomments,
      List.flatMap_append, List.flatMap_append, List.flatMap_singleton]
  · rw [TypeScript.explicit, toList_intercalate_newline, List.flatMap_append, List.flatMap_append]
    simp [Settings.schemaDoc, Settings.withoutComments, Comment.block?]
    rfl

/-- An inferred alias shows the description of the schema. -/
theorem documented_inferred :
    DocumentedText schema.doc.toList (TypeScript.inferred schema settings)
      (TypeScript.inferred schema settings.withoutComments) := by
  have hmore : ∀ line ∈ ["Inferred from " ++ settings.schemaName schema], '*' ∉ line.toList := by
    simp [star_not_mem_schemaName h]
  refine ⟨_, _, _, ?_, ?_, star_not_mem_alias h, Documented.block? schema.doc _ hmore⟩
  · rw [TypeScript.inferred, toList_intercalate_newline, schemaDoc_of_comments hcomments]
  · rw [TypeScript.inferred, toList_intercalate_newline]
    rfl

theorem documented_type :
    DocumentedText (schema.typeDocs settings.typeStyle) (TypeScript.declaration schema settings)
      (TypeScript.declaration schema settings.withoutComments) := by
  have hstyle : settings.withoutComments.typeStyle = settings.typeStyle := rfl
  unfold TypeScript.declaration
  rw [hstyle]
  cases settings.typeStyle with
  | infer     => exact documented_inferred hcomments h
  | interface => exact documented_explicit hcomments h true
  | type      => exact documented_explicit hcomments h false

/-! ### Source units -/

theorem documented_validatorAndType :
    DocumentedText (schema.docs ++ schema.typeDocs settings.typeStyle)
      (SourceUnit.validatorAndType schema settings)
      (SourceUnit.validatorAndType schema settings.withoutComments) := by
  have hvalidator := (documented_validator hcomments h).lineText
  obtain ⟨front, bareFront, last, hnoted, hbare, hlast, htype⟩ := documented_type hcomments h
  have hfront := (hvalidator.append (Documented.line (by decide : '*' ∉ "".toList))).append htype
  rw [List.append_nil] at hfront
  refine ⟨_, _, last, ?_, ?_, hlast, hfront⟩
  · simp [SourceUnit.validatorAndType, lineText, hnoted]
  · simp [SourceUnit.validatorAndType, lineText, hbare]

omit hcomments h in
theorem toList_typeAndAlternative (schema : Schema) (settings : Settings) :
    (SourceUnit.typeAndAlternative schema settings).toList
      = lineText "// Explicit TypeScript type"
        ++ lineText (TypeScript.explicit schema settings (decide (settings.typeStyle = .interface)))
        ++ ["", "// Alternative: Inferred from Zod schema"].flatMap lineText
        ++ ("// " ++ TypeScript.inferred schema settings.withoutComments).toList := by
  rw [SourceUnit.typeAndAlternative]
  simp [lineText, Settings.withoutComments]

theorem documented_typeAndAlternative :
    DocumentedText schema.docs (SourceUnit.typeAndAlternative schema settings)
      (SourceUnit.typeAndAlternative schema settings.withoutComments) := by
  have hexplicit := (documented_explicit hcomments h (decide (settings.typeStyle = .interface))).lineText
  have hlast : '*' ∉ ("// " ++ TypeScript.inferred schema settings.withoutComments).toList := by
    have hinferred : TypeScript.inferred schema settings.withoutComments
        = settings.exportWord ++ "type " ++ settings.typeName schema ++ " = z.infer<typeof "
          ++ settings.schemaName schema ++ ">" ++ settings.semicolon :=
      String.intercalate_singleton (s := "\n")
    rw [hinferred, String.toList_append, List.mem_append, not_or]
    exact ⟨by decide, star_not_mem_alias h⟩
  have hfirst := Documented.line (by decide : '*' ∉ "// Explicit TypeScript type".toList)
  have hafter := Documented.lines (by decide :
    ∀ line ∈ ["", "// Alternative: Inferred from Zod schema"], '*' ∉ line.toList)
  have hfront := (hfirst.append hexplicit).append hafter
  rw [List.nil_append, List.append_nil] at hfront
  exact ⟨_, _, _, toList_typeAndAlternative schema settings,
    toList_typeAndAlternative schema settings.withoutComments, hlast, hfront⟩

end

/-! ## Emitted code -/

/-- **When descriptions are inert in emitted code.** If no other text has a star, deleting the block
    comments gives the code emitted without comments, up to empty lines, exactly when every description
    that is shown is inert; and a description without an end mark is. -/
theorem sameCode_emitted_iff {settings : Settings} {schema : Schema} (hcomments : settings.comments = true)
    (h : LacksStar settings schema) :
    (SameCode (Zod.declaration schema settings) (Zod.declaration schema settings.withoutComments)
      ↔ ∀ text ∈ schema.docs, IsInert text) ∧
    (SameCode (TypeScript.declaration schema settings)
        (TypeScript.declaration schema settings.withoutComments)
      ↔ ∀ text ∈ schema.typeDocs settings.typeStyle, IsInert text) ∧
    (SameCode (SourceUnit.validatorAndType schema settings)
        (SourceUnit.validatorAndType schema settings.withoutComments)
      ↔ ∀ text ∈ schema.docs, IsInert text) ∧
    (SameCode (SourceUnit.typeAndAlternative schema settings)
        (SourceUnit.typeAndAlternative schema settings.withoutComments)
      ↔ ∀ text ∈ schema.docs, IsInert text) ∧
    ∀ text : String, TypeScript.Import.NoClose text.toList → IsInert text := by
  have htypeDocs : ∀ text ∈ schema.typeDocs settings.typeStyle, text ∈ schema.docs := by
    intro text htext
    cases hstyle : settings.typeStyle with
    | infer     => rw [hstyle] at htext; exact List.mem_append_left _ htext
    | interface => rw [hstyle] at htext; exact htext
    | type      => rw [hstyle] at htext; exact htext
  refine ⟨(documented_validator hcomments h).sameCode_iff, (documented_type hcomments h).sameCode_iff,
    ?_, (documented_typeAndAlternative hcomments h).sameCode_iff, fun _ => isInert_of_noClose⟩
  rw [(documented_validatorAndType hcomments h).sameCode_iff, List.forall_mem_append]
  exact ⟨And.left, fun hall => ⟨hall, fun text htext => hall text (htypeDocs text htext)⟩⟩

/-- What stands behind an end mark in a description is code, unless it is in a comment of its own. -/
theorem sameCode_emitted_iff_endMark :
    LacksStar {} { name := "A", description := some "*/ x" } ∧
    ¬ SameCode (Zod.declaration { name := "A", description := some "*/ x" } {})
        (Zod.declaration { name := "A", description := some "*/ x" } (Settings.withoutComments {})) ∧
    LacksStar {} { name := "A", description := some "/* a */ /* b" } ∧
    SameCode (Zod.declaration { name := "A", description := some "/* a */ /* b" } {})
      (Zod.declaration { name := "A", description := some "/* a */ /* b" }
        (Settings.withoutComments {})) := by
  have hlacks : ∀ description : Option String, LacksStar {} { name := "A", description } :=
    fun _ => ⟨(by decide : ∀ text ∈ ["A"], '*' ∉ text.toList), by decide, by decide⟩
  have hdocs : ∀ text : String, text ≠ "" →
      Schema.docs { name := "A", description := some text } = [text] := by
    intro text hne
    simp [Schema.docs, Schema.doc, nonempty?, hne]
  refine ⟨hlacks _, fun hsame => ?_, hlacks _, ?_⟩
  · have hall := (sameCode_emitted_iff rfl (hlacks (some "*/ x"))).1.mp hsame
    rw [hdocs _ (by decide), List.forall_mem_singleton] at hall
    exact absurd hall (by decide)
  · refine (sameCode_emitted_iff rfl (hlacks (some "/* a */ /* b"))).1.mpr ?_
    rw [hdocs _ (by decide), List.forall_mem_singleton]
    decide

end Comment

end SchemaForge
