import SchemaForge.Proofs.Emission.Agreement
import SchemaForge.Proofs.Import.Recovery
import SchemaForge.Proofs.Zod.Character
import SchemaForge.SourceUnit

/-!
# `Proofs.Import.SourceUnit` — importing whole source units

A source unit that declares the members of a type is read as the bare declaration: what is emitted
before it has no place at which a declaration could start. The search for a declaration only ever
ends at an opening brace. A validator has two of them, after `import` and after a parenthesis, and no
head of a declaration ends there; comments and the word `type` at the end of a line have none. So the
first brace that counts is the one of the declaration, and backwards from it there is one head only.

## Contents
- **Declarations in a text.** `shownBody`, and `find?_explicit`, a declaration with text around it;
  `schema_explicit`, the declaration alone.
- **Validators.** `find?_validator`, the search goes on behind a validator.
- **Units.** `schema_sourceUnit`.
-/

namespace SchemaForge.TypeScript.Import

open Text

/-! ## A declaration with text around it -/

/-- The part of a body that is read: it ends at the first closing brace, even inside a text. -/
def shownBody (settings : Settings) (fields : List Field) : List Char :=
  (bodyText settings fields).takeWhile fun c => c ≠ '\x7d'

/-- What a declaration that lists the members is read as. -/
def shown (schema : Schema) (settings : Settings) : Schema where
  name := settings.typeName schema
  fields := fieldsOfItems none (items (shownBody settings schema.fields))

/-- A text is read up to its first mark, or up to one that follows it. -/
theorem exists_append_mark (mark : Char) (text rest : List Char) :
    ∃ after, text ++ mark :: rest = (text.takeWhile fun c => c ≠ mark) ++ mark :: after := by
  induction text with
  | nil => exact ⟨rest, rfl⟩
  | cons c text ih =>
      by_cases hmark : c = mark
      · refine ⟨text ++ mark :: rest, ?_⟩
        rw [List.takeWhile_cons_of_neg (by simp [hmark]), hmark]
        rfl
      · obtain ⟨after, hafter⟩ := ih
        refine ⟨after, ?_⟩
        rw [List.takeWhile_cons_of_pos (by simp [hmark]), List.cons_append, List.cons_append, hafter]

theorem EndsOutsideWord.append {front back : List Char} (hback : EndsOutsideWord back)
    (hfront : EndsOutsideWord front) : EndsOutsideWord (front ++ back) := by
  by_cases hnil : back = []
  · rw [hnil, List.append_nil]
    exact hfront
  · intro c hc
    rw [getLast?_append_right hnil] at hc
    exact hback c hc

theorem endsOutsideWord_concat (front : List Char) {c : Char} (h : isWord c = false) :
    EndsOutsideWord (front ++ [c]) := by
  intro d hd
  rw [List.getLast?_concat] at hd
  obtain rfl := Option.some.inj hd
  exact h

/-- **A declaration is found behind a text without an opening brace**, whatever follows it. -/
theorem find?_explicit {schema : Schema} {settings : Settings} (asInterface : Bool)
    (hname : IsName (settings.typeName schema))
    (hdoc : ∀ text, settings.schemaDoc schema = some text → '\x7b' ∉ text.toList)
    {front : List Char} (hfront : '\x7b' ∉ front) (hend : EndsOutsideWord front)
    (back : List Char) :
    Declared.find? (front ++ ((explicit schema settings asInterface).toList ++ back))
      = some ⟨(settings.typeName schema).toList, shownBody settings schema.fields⟩ := by
  obtain ⟨rest, htext⟩ := toList_explicit schema settings asInterface
  obtain ⟨after, hbody⟩ := exists_append_mark '\x7d' (bodyText settings schema.fields) (rest ++ back)
  have hne : shownBody settings schema.fields ≠ [] := by
    simp [shownBody, bodyText]
  have hbrace : '\x7d' ∉ shownBody settings schema.fields := by
    intro hmem
    have := List.mem_takeWhile_imp hmem
    simp at this
  have hbefore : '\x7b' ∉ front ++ frontText schema settings := by
    rw [List.mem_append, not_or]
    exact ⟨hfront, brace_not_mem_front hdoc⟩
  have hfind := find?_append after (isHead_headText hname asInterface) hbefore
    ((endsOutsideWord_frontText schema settings).append hend) hne hbrace
  rw [htext, ← hfind]
  simp only [List.append_assoc, List.cons_append, hbody]
  rfl

/-- A text with a declaration in it is read as what the declaration shows. -/
theorem schema_of_find? {schema : Schema} {settings : Settings} {text : String}
    (h : Declared.find? text.toList
      = some ⟨(settings.typeName schema).toList, shownBody settings schema.fields⟩) :
    Import.schema text = .ok (shown schema settings) := by
  unfold Import.schema
  rw [h]
  show Except.ok _ = _
  rw [String.ofList_toList]
  rfl

/-- **A declaration that lists the members is read as what it shows.** -/
theorem schema_explicit {schema : Schema} {settings : Settings} (asInterface : Bool)
    (hname : IsName (settings.typeName schema))
    (hdoc : ∀ text, settings.schemaDoc schema = some text → '\x7b' ∉ text.toList) :
    Import.schema (explicit schema settings asInterface) = .ok (shown schema settings) := by
  have hfind := find?_explicit asInterface hname hdoc List.not_mem_nil (fun _ hc => nomatch hc) []
  rw [List.nil_append, List.append_nil] at hfind
  exact schema_of_find? hfind

/-- A recoverable schema is shown as what comes back of it. -/
theorem shown_eq_recovered {schema : Schema} {settings : Settings}
    (h : IsRecoverable settings schema) : shown schema settings = schema.recovered settings := by
  have hbody : shownBody settings schema.fields = bodyText settings schema.fields :=
    List.takeWhile_eq_self_iff.mpr fun c hc =>
      decide_eq_true fun he => brace_not_mem_bodyText h (he ▸ hc)
  rw [shown, hbody, fieldsOfItems_bodyText h]
  rfl

/-! ## Behind a validator -/

/-- No text in a schema, and no name made from it, has an opening brace. -/
structure LacksBrace (settings : Settings) (schema : Schema) : Prop where
  texts : ∀ text ∈ schema.texts, '\x7b' ∉ text.toList
  schemaSuffix : '\x7b' ∉ settings.schemaSuffix.toList
  typeSuffix : '\x7b' ∉ settings.typeSuffix.toList

section

variable {settings : Settings} {schema : Schema} (h : LacksBrace settings schema)
include h

theorem brace_not_mem_schemaDoc :
    ∀ text, settings.schemaDoc schema = some text → '\x7b' ∉ text.toList := by
  intro text hdoc
  have hsome := eq_some_of_nonempty? (Settings.schemaDoc_eq_some hdoc).2
  exact h.texts text (by simp [Schema.texts, hsome])

theorem brace_not_mem_name : '\x7b' ∉ schema.name.toList := h.texts _ (by simp [Schema.texts])

theorem brace_not_mem_schemaName : '\x7b' ∉ (settings.schemaName schema).toList :=
  settings.not_mem_schemaName (brace_not_mem_name h) h.schemaSuffix

theorem brace_not_mem_typeName : '\x7b' ∉ (settings.typeName schema).toList :=
  settings.not_mem_typeName (brace_not_mem_name h) h.typeSuffix

omit h in
theorem brace_not_mem_semicolon (settings : Settings) : '\x7b' ∉ settings.semicolon.toList :=
  settings.not_mem_semicolon (by decide)

/-- The lines of a field in a validator have no opening brace. -/
theorem brace_not_mem_fieldLines {field : Field} (hfield : field ∈ schema.fields) {ending : String}
    (hending : '\x7b' ∉ ending.toList) :
    '\x7b' ∉ (Zod.fieldLines settings field ending).flatMap lineText := by
  have htexts : ∀ text ∈ field.texts, '\x7b' ∉ text.toList :=
    fun text htext => h.texts text (Field.texts_subset hfield htext)
  have hname := htexts field.name (by simp [Field.texts])
  have hexpr := Zod.not_mem_text_ofField (by decide : Zod.isCodeChar '\x7b' = false) htexts
  have hdoc : ∀ text, settings.fieldDoc field = some text → '\x7b' ∉ text.toList := by
    intro text hdoc
    have hsome := eq_some_of_nonempty? (Settings.fieldDoc_eq_some hdoc).2
    exact htexts text (by simp [Field.texts, hsome])
  have hcomment : '\x7b' ∉ (Comment.member? (settings.fieldDoc field)).flatMap lineText := by
    cases hd : settings.fieldDoc field with
    | none => exact List.not_mem_nil
    | some text => simp [Comment.member?, lineText, hdoc text hd]
  rw [Zod.fieldLines, List.flatMap_append, List.mem_append, not_or]
  refine ⟨hcomment, ?_⟩
  simp [lineText, hname, hexpr, hending]

theorem brace_not_mem_bodyLines (fields : List Field) (hsub : fields ⊆ schema.fields) :
    '\x7b' ∉ (Zod.bodyLines settings fields).flatMap lineText := by
  -- the recursion of `bodyLines`: no field, the last field, and a field with others after it
  fun_induction Zod.bodyLines settings fields with
  | case1 => exact List.not_mem_nil
  | case2 field => exact brace_not_mem_fieldLines h (hsub (by simp)) (by decide)
  | case3 field next rest ih =>
      rw [List.flatMap_append, List.mem_append, not_or]
      exact ⟨brace_not_mem_fieldLines h (hsub (by simp)) (by decide),
        ih fun f hf => hsub (List.mem_cons_of_mem _ hf)⟩

omit h in
theorem endsNoHead_import : EndsNoHead "import ".toList :=
  endsNoHead_of_tails (by decide)

/-- **The search for a declaration goes on behind a validator**: at the brace after `import` and at
    the one after the parenthesis no head ends. -/
theorem find?_validator (back : List Char) :
    ∃ after, '\x7b' ∉ after ∧ EndsOutsideWord after ∧
      Declared.find? ((Zod.declaration schema settings).toList ++ back)
        = findFrom? false (after ++ back) := by
  -- the text between the two braces, and the one behind the second
  let middle : List Char := " z \x7d from 'zod'".toList ++ settings.semicolon.toList ++ ['\n', '\n']
    ++ (Comment.block? (settings.schemaDoc schema) []).flatMap lineText
    ++ settings.exportWord.toList ++ "const ".toList ++ (settings.schemaName schema).toList
    ++ " = z.object".toList ++ ['(']
  let after : List Char := '\n' :: (Zod.bodyLines settings schema.fields).flatMap lineText
    ++ ['\x7d', ')'] ++ settings.semicolon.toList
  have htext : (Zod.declaration schema settings).toList
      = "import ".toList ++ '\x7b' :: (middle ++ '\x7b' :: after) := by
    rw [Zod.declaration, toList_intercalate_newline]
    simp [middle, after, Zod.headLines, lineText]
  have hmiddle : '\x7b' ∉ middle := by
    have hblock := brace_not_mem_block? (brace_not_mem_schemaDoc h)
      (List.forall_mem_nil fun line : String => '\x7b' ∉ line.toList)
    simp only [middle, List.mem_append, not_or]
    exact ⟨⟨⟨⟨⟨⟨⟨⟨by decide, brace_not_mem_semicolon settings⟩, by decide⟩, hblock⟩,
      brace_not_mem_exportWord settings⟩, by decide⟩, brace_not_mem_schemaName h⟩, by decide⟩,
      by decide⟩
  -- a parenthesis stands before the second brace
  have hmiddle_end : EndsNoHead middle := by
    refine endsNoHead_of_getLast? (List.getLast?_concat) ?_
    decide
  have hafter : '\x7b' ∉ after := by
    have hbody := brace_not_mem_bodyLines h schema.fields fun _ hf => hf
    simp only [after, List.cons_append, List.mem_cons, List.mem_append, not_or]
    exact ⟨by decide, ⟨hbody, by decide⟩, brace_not_mem_semicolon settings⟩
  have hafter_end : EndsOutsideWord after := by
    have hclose : EndsOutsideWord ('\n' :: (Zod.bodyLines settings schema.fields).flatMap lineText
        ++ ['\x7d', ')']) := by
      rw [show ['\x7d', ')'] = ['\x7d'] ++ [')'] from rfl, ← List.append_assoc]
      exact endsOutsideWord_concat _ (by decide)
    refine EndsOutsideWord.append ?_ hclose
    unfold Settings.semicolon
    split
    · exact endsOutsideWord_concat [] (by decide)
    · exact fun c hc => absurd hc (by simp)
  refine ⟨after, hafter, hafter_end, ?_⟩
  rw [htext, List.append_assoc, List.cons_append, List.append_assoc, List.cons_append,
    Declared.find?, findFrom?_brace (by decide) endsNoHead_import,
    findFrom?_brace hmiddle hmiddle_end]

/-- An inferred alias has no opening brace. -/
theorem brace_not_mem_inferred : '\x7b' ∉ (inferred schema settings).toList := by
  have hmore : ∀ line ∈ ["Inferred from " ++ settings.schemaName schema], '\x7b' ∉ line.toList := by
    refine List.forall_mem_singleton.mpr ?_
    simp [brace_not_mem_schemaName h]
  rw [inferred, toList_intercalate_newline, List.mem_append, not_or]
  refine ⟨brace_not_mem_block? (brace_not_mem_schemaDoc h) hmore, ?_⟩
  simp [brace_not_mem_exportWord settings, brace_not_mem_typeName h, brace_not_mem_schemaName h,
    brace_not_mem_semicolon settings]

end

/-! ## Source units -/

section

variable {settings : Settings} {schema : Schema} (h : LacksBrace settings schema)
include h

/-- A style that lists the members is read as what it shows. -/
theorem schema_listing (hname : IsName (settings.typeName schema)) :
    Import.schema (declaration schema settings.listing) = .ok (shown schema settings) := by
  rw [← explicit_eq_declaration]
  exact schema_explicit _ hname (brace_not_mem_schemaDoc h)

/-- A validator with a type that lists its members is read as the type alone. -/
theorem schema_validatorAndType (hname : IsName (settings.typeName schema))
    (hstyle : settings.typeStyle ≠ .infer) :
    Import.schema (SourceUnit.validatorAndType schema settings) = .ok (shown schema settings) := by
  have hexplicit := explicit_eq_declaration schema settings
  rw [Settings.listing_eq_self hstyle] at hexplicit
  obtain ⟨after, hafter, -, hsearch⟩ :=
    find?_validator h ("\n\n".toList ++ (declaration schema settings).toList)
  have hfront : '\x7b' ∉ after ++ "\n\n".toList := by
    rw [List.mem_append, not_or]
    exact ⟨hafter, by decide⟩
  have hend : EndsOutsideWord (after ++ "\n\n".toList) := by
    rw [show "\n\n".toList = ['\n'] ++ ['\n'] from rfl, ← List.append_assoc]
    exact endsOutsideWord_concat _ (by decide)
  have hfind := find?_explicit (decide (settings.typeStyle = .interface)) hname
    (brace_not_mem_schemaDoc h) hfront hend []
  refine schema_of_find? ?_
  rw [SourceUnit.validatorAndType, String.toList_append, String.toList_append, List.append_assoc,
    hsearch, ← hexplicit, ← hfind, List.append_nil, List.append_assoc]
  rfl

/-- A type that lists its members with the inferred alias below it is read as the type alone. -/
theorem schema_typeAndAlternative (hname : IsName (settings.typeName schema)) :
    Import.schema (SourceUnit.typeAndAlternative schema settings) = .ok (shown schema settings) := by
  have hend : EndsOutsideWord "// Explicit TypeScript type\n".toList :=
    endsOutsideWord_concat "// Explicit TypeScript type".toList (by decide)
  have hfind := find?_explicit (decide (settings.typeStyle = .interface)) hname
    (brace_not_mem_schemaDoc h) (by decide) hend
    ("\n\n// Alternative: Inferred from Zod schema\n// ".toList
      ++ (inferred schema { settings with comments := false }).toList)
  refine schema_of_find? ?_
  rw [← hfind, SourceUnit.typeAndAlternative]
  simp

/-- No declaration is found in an inferred alias, alone or behind its validator. -/
theorem schema_inferred (hstyle : settings.typeStyle = .infer) :
    Import.schema (declaration schema settings) = .error .noDeclaration ∧
    Import.schema (SourceUnit.validatorAndType schema settings) = .error .noDeclaration := by
  have hdeclaration : declaration schema settings = inferred schema settings := by
    rw [declaration, hstyle]
  have hinferred := brace_not_mem_inferred h
  have hnone : ∀ {text : String}, Declared.find? text.toList = none →
      Import.schema text = .error .noDeclaration := by
    intro text hfind
    rw [Import.schema, hfind]
  obtain ⟨after, hafter, -, hsearch⟩ :=
    find?_validator h ("\n\n".toList ++ (declaration schema settings).toList)
  refine ⟨hnone ?_, hnone ?_⟩
  · rw [hdeclaration]
    exact findFrom?_eq_none hinferred false
  · rw [SourceUnit.validatorAndType, String.toList_append, String.toList_append, List.append_assoc,
      hsearch, hdeclaration]
    refine findFrom?_eq_none ?_ false
    rw [List.mem_append, List.mem_append]
    exact not_or.mpr ⟨hafter, not_or.mpr ⟨by decide, hinferred⟩⟩

end

/-- **A source unit is imported as its bare type.** Of a schema without opening braces, the module
    with its validator and the type with its inferred alternative are read as the declaration that
    lists the members, which is always found; where the type is only inferred, nothing is found. -/
theorem schema_sourceUnit {settings : Settings} {schema : Schema}
    (hname : IsName (settings.typeName schema)) (h : LacksBrace settings schema) :
    (settings.typeStyle ≠ .infer →
      Import.schema (SourceUnit.validatorAndType schema settings)
        = Import.schema (declaration schema settings)) ∧
    Import.schema (SourceUnit.typeAndAlternative schema settings)
      = Import.schema (declaration schema settings.listing) ∧
    Import.schema (declaration schema settings.listing) = .ok (shown schema settings) ∧
    (settings.typeStyle = .infer →
      Import.schema (declaration schema settings) = .error .noDeclaration ∧
      Import.schema (SourceUnit.validatorAndType schema settings) = .error .noDeclaration) := by
  have hlisting := schema_listing h hname
  refine ⟨fun hstyle => ?_, ?_, hlisting, schema_inferred h⟩
  · rw [Settings.listing_eq_self hstyle] at hlisting
    rw [schema_validatorAndType h hname hstyle, hlisting]
  · rw [schema_typeAndAlternative h hname, hlisting]

/-- A schema whose texts look like declarations, and with a literal that ends the body early. -/
def lookalike : Schema where
  name := "Order"
  description := some "Replaces\ntype Order ="
  fields :=
    [{ name := "code", description := some "interface Code", defaultValue := some "type",
       rules := .string { regex := some "^interface X $" } },
     { name := "state", required := false, rules := .enum { values := ["open\x7d", "type T ="] } }]

/-- The module of the look-alike and its type with the inferred alternative are read as the alias,
    whose body ends at the first closing brace. -/
theorem schema_sourceUnit_lookalike :
    IsName (Settings.typeName { typeStyle := .type } lookalike) ∧
    LacksBrace { typeStyle := .type } lookalike ∧
    Import.schema (SourceUnit.validatorAndType lookalike { typeStyle := .type })
      = .ok (shown lookalike { typeStyle := .type }) ∧
    Import.schema (SourceUnit.typeAndAlternative lookalike { typeStyle := .type })
      = .ok (shown lookalike { typeStyle := .type }) ∧
    shown lookalike { typeStyle := .type }
      = { name := "Order"
          fields :=
            [{ name := "code", description := some "interface Code", rules := .empty .string },
             { name := "state", required := false, rules := .oneOf ["open"] }] } := by
  have hname : IsName (Settings.typeName { typeStyle := .type } lookalike) :=
    ⟨by decide, List.all_eq_true.mp (by decide)⟩
  have hbrace : LacksBrace { typeStyle := .type } lookalike :=
    ⟨by decide, by decide, by decide⟩
  obtain ⟨hmodule, halternative, hlisting, -⟩ := schema_sourceUnit hname hbrace
  exact ⟨hname, hbrace, (hmodule (by decide)).trans hlisting, halternative.trans hlisting, rfl⟩

end SchemaForge.TypeScript.Import
