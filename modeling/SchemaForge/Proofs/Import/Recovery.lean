import SchemaForge.Proofs.Import.Declared
import SchemaForge.Proofs.Import.EmittedType
import SchemaForge.Proofs.Import.Item
import SchemaForge.TypeScript.Declaration
import SchemaForge.TypeScript.Import.Reader

/-!
# `Proofs.Import.Recovery` — importing an emitted type gives the schema back

A declaration that lists its members shows the name of the type, the members with their flags and
types, and the comments. Importing it gives back exactly that: `Schema.recovered`. The head of the
declaration is found after its comment, the body ends at its own brace, and its lines are read one
field at a time.

## Contents
- **What comes back.** `Field.recovered`, `Schema.recovered`, and `IsRecoverable`, what the names,
  literals and descriptions of a schema need.
- **The body.** `items_bodyText` and `fieldsOfItems_bodyItems`, field by field.
- **The declaration.** `toList_explicit`, and `schema_declaration`.
-/

namespace SchemaForge

open Text TypeScript.Import

/-! ## What comes back -/

/-- What the member of a field in a declaration shows of the field. -/
def Field.recovered (settings : Settings) (field : Field) : Field where
  name := field.name
  required := field.required
  nullable := field.nullable
  description := settings.fieldDoc field
  rules := field.rules.recovered

/-- What a declaration that lists the members shows of a schema. -/
def Schema.recovered (settings : Settings) (schema : Schema) : Schema where
  name := settings.typeName schema
  fields := schema.fields.map (Field.recovered settings)

/-- A name that is read as one word. -/
structure IsName (text : String) : Prop where
  ne_empty : text ≠ ""
  isWord : ∀ c ∈ text.toList, isWord c = true

/-- A description that comes back from the doc comment of a member: one trimmed line that does not
    start with a star and ends neither its comment nor the declaration. -/
structure IsDocLine (text : String) : Prop where
  line : '\n' ∉ text.toList
  trimmed : IsTrimmed text.toList
  star : text.toList.head? ≠ some '*'
  noClose : NoClose text.toList
  brace : '\x7d' ∉ text.toList

/-- The names, literals and emitted descriptions of a schema can be read back from its type. -/
structure IsRecoverable (settings : Settings) (schema : Schema) : Prop where
  typeName : IsName (settings.typeName schema)
  names : ∀ field ∈ schema.fields, IsName field.name
  values : ∀ field ∈ schema.fields, field.rules.HasPlainValues
  schemaDoc : settings.comments = true → ∀ text, schema.doc = some text → '\x7b' ∉ text.toList
  fieldDocs : settings.comments = true →
    ∀ field ∈ schema.fields, ∀ text, field.doc = some text → IsDocLine text

end SchemaForge

namespace SchemaForge.TypeScript.Import

open Text

/-! ## The text of a body -/

/-- The text of a field's doc comment between its marks. -/
def docInside (text : String) : List Char := ' ' :: (text.toList ++ [' '])

/-- The line of a field's doc comment, if it has one. -/
def docText : Option String → List Char
  | some text => ' ' :: ' ' :: '/' :: '*' :: '*' :: (docInside text ++ '*' :: '/' :: ['\n'])
  | none      => []

/-- The lines of a field in the body of a declaration. -/
def fieldText (settings : Settings) (field : Field) : List Char :=
  docText (settings.fieldDoc field)
    ++ ' ' :: ' ' :: (field.name.toList ++ (optionalMark (!field.required)
      ++ ':' :: ([' '] ++ ((Ty.ofField field).text.toList ++ settings.semicolon.toList ++ ['\n']))))

/-- The body of a declaration between its braces. -/
def bodyText (settings : Settings) (fields : List Field) : List Char :=
  '\n' :: fields.flatMap (fieldText settings)

theorem flatMap_lineText_memberLines (settings : Settings) (field : Field) :
    (memberLines settings field).flatMap lineText = fieldText settings field := by
  unfold memberLines fieldText
  rw [List.flatMap_append]
  congr 1
  · cases settings.fieldDoc field with
    | none => rfl
    | some text => simp [Comment.member?, docText, docInside, lineText]
  · cases field.required <;> simp [lineText, optionalMark]

/-! ## The items of a body -/

/-- The item of a field's doc comment, if it has one. -/
def docItems : Option String → List Item
  | some text => [.doc (docInside text)]
  | none      => []

/-- The items of a field: its doc comment and its member. -/
def fieldItems (settings : Settings) (field : Field) : List Item :=
  docItems (settings.fieldDoc field)
    ++ [.member field.name.toList (!field.required) (Ty.ofField field).text.toList]

theorem noClose_docInside {text : String} (h : NoClose text.toList) : NoClose (docInside text) :=
  (h.append_cons (noClose_of_not_mem List.not_mem_nil) (by decide)).cons fun hstart =>
    absurd hstart.1 (by decide)

theorem items_docText {doc : Option String} (h : ∀ text, doc = some text → NoClose text.toList)
    (rest : List Char) :
    items (docText doc ++ rest) = docItems doc ++ items rest := by
  cases doc with
  | none => rfl
  | some text =>
      have htext : docText (some text) ++ rest
          = ' ' :: ' ' :: '/' :: '*' :: '*' :: (docInside text ++ '*' :: '/' :: '\n' :: rest) := by
        simp [docText]
      rw [htext, items_blank isBlank_space, items_blank isBlank_space,
        items_doc (noClose_docInside (h text rfl)), items_blank isBlank_newline]
      rfl

/-- What follows the type of a member: perhaps a semicolon, and the end of the line. -/
theorem items_semicolon (settings : Settings) (rest : List Char) :
    items (settings.semicolon.toList ++ '\n' :: rest) = items rest := by
  have hword : isWord ';' = false := by decide
  unfold Settings.semicolon
  split
  · show items (';' :: '\n' :: rest) = _
    rw [items_skip (by decide) hword, items_blank isBlank_newline]
  · show items ('\n' :: rest) = _
    rw [items_blank isBlank_newline]

/-- **The lines of a field are read as its items.** -/
theorem items_fieldText {settings : Settings} {field : Field} (hname : IsName field.name)
    (hvalues : field.rules.HasPlainValues)
    (hdoc : ∀ text, settings.fieldDoc field = some text → IsDocLine text) (rest : List Char) :
    items (fieldText settings field ++ rest) = fieldItems settings field ++ items rest := by
  have hstop : StopsAt isTypeChar (settings.semicolon.toList ++ '\n' :: rest) := by
    unfold Settings.semicolon
    split
    · exact stopsAt_cons (by decide)
    · exact stopsAt_cons (by decide)
  have htrim := isTrimmed_type hvalues
  have hmember := items_member (!field.required) hname.isWord
    (fun he => hname.ne_empty (String.toList_eq_nil_iff.mp he))
    (List.forall_mem_singleton.mpr isBlank_space) (isTypeChar_type hvalues) htrim.2 htrim.1.1 hstop
  unfold fieldText fieldItems
  rw [List.append_assoc, items_docText fun text he => (hdoc text he).noClose]
  simp only [List.cons_append, List.append_assoc, List.nil_append] at hmember ⊢
  rw [items_blank isBlank_space, items_blank isBlank_space, hmember, items_semicolon]

/-! ## The fields of a body -/

/-- A doc line comes back from between its marks. -/
theorem cleanDoc?_docInside {text : String} (h : IsDocLine text) (hne : text ≠ "") :
    cleanDoc? (docInside text) = some text := by
  have hne' : text.toList ≠ [] := fun he => hne (String.toList_eq_nil_iff.mp he)
  have hline : '\n' ∉ docInside text := by simp [docInside, h.line]
  have htrim : trim (docInside text) = text.toList := by
    rw [docInside, trim, trimStart_blank isBlank_space, ← trim,
      trim_append_blank hne' h.trimmed isBlank_space]
  have hstar : text.toList.dropWhile (· == '*') = text.toList := by
    refine dropWhile_eq_self_of_stopsAt fun c hc => ?_
    have : c ≠ '*' := fun he => h.star (he ▸ hc)
    simpa using this
  unfold cleanDoc?
  rw [split_of_not_mem hline]
  simp only [List.map_cons, List.map_nil, htrim, hstar, trim_of_isTrimmed h.trimmed,
    List.filter_cons, List.filter_nil, decide_eq_true hne', ↓reduceIte, List.intercalate_singleton,
    String.ofList_toList]

/-- **The items of a field are read as what its member shows.** -/
theorem fieldsOfItems_fieldItems {settings : Settings} {field : Field}
    (hvalues : field.rules.HasPlainValues)
    (hdoc : ∀ text, settings.fieldDoc field = some text → IsDocLine text ∧ text ≠ "")
    (items : List Item) :
    fieldsOfItems none (fieldItems settings field ++ items)
      = field.recovered settings :: fieldsOfItems none items := by
  have hfield : ∀ description, fieldOfMember field.name.toList (!field.required)
      (trim (withoutComment (Ty.ofField field).text.toList)) description
      = { name := field.name, required := field.required, nullable := field.nullable,
          description := description, rules := field.rules.recovered } := by
    intro description
    rw [fieldOfMember, trim_withoutComment_type hvalues, allowsNull_type hvalues,
      rulesOfType_type hvalues, String.ofList_toList, Bool.not_not]
  unfold fieldItems
  cases hd : settings.fieldDoc field with
  | none =>
      show fieldOfMember _ _ _ none :: _ = _
      rw [hfield, Field.recovered, hd]
      rfl
  | some text =>   -- the comment before the member is pending when the member is read
      obtain ⟨hline, hne⟩ := hdoc text hd
      show fieldOfMember _ _ _ (cleanDoc? (docInside text)) :: _ = _
      rw [cleanDoc?_docInside hline hne, hfield, Field.recovered, hd]
      rfl

/-- The emitted descriptions of fields are not empty and, where they can be read back, doc lines. -/
theorem isDocLine_of_fieldDoc {settings : Settings} {schema : Schema}
    (h : IsRecoverable settings schema) {field : Field} (hfield : field ∈ schema.fields)
    {text : String} (hdoc : settings.fieldDoc field = some text) : IsDocLine text ∧ text ≠ "" := by
  obtain ⟨hcomments, hsome⟩ := Settings.fieldDoc_eq_some hdoc
  exact ⟨h.fieldDocs hcomments field hfield text hsome, ne_empty_of_nonempty? hsome⟩

/-- **The body of a declaration is read as what its members show.** -/
theorem fieldsOfItems_bodyText {settings : Settings} {schema : Schema}
    (h : IsRecoverable settings schema) :
    fieldsOfItems none (items (bodyText settings schema.fields))
      = schema.fields.map (Field.recovered settings) := by
  rw [bodyText, items_blank isBlank_newline]
  -- induction on the fields whose lines are still to be read
  suffices walk : ∀ fields : List Field, (∀ field ∈ fields, field ∈ schema.fields) →
      fieldsOfItems none (items (fields.flatMap (fieldText settings)))
        = fields.map (Field.recovered settings) from
    walk schema.fields fun _ hfield => hfield
  intro fields
  induction fields with
  | nil => intro _; rfl
  | cons field fields ih =>
      intro hsub
      have hmem := hsub field (by simp)
      have hvalues := h.values field hmem
      have hdoc := fun text (hdoc : settings.fieldDoc field = some text) =>
        isDocLine_of_fieldDoc h hmem hdoc
      rw [List.flatMap_cons, items_fieldText (h.names field hmem) hvalues fun t ht => (hdoc t ht).1,
        fieldsOfItems_fieldItems hvalues hdoc, ih fun f hf => hsub f (by simp [hf]), List.map_cons]

/-! ## The declaration -/

/-- What stands before the head of a declaration that lists its members. -/
def frontText (schema : Schema) (settings : Settings) : List Char :=
  (Comment.block? (settings.schemaDoc schema) []).flatMap lineText ++ settings.exportWord.toList

/-- The head of a declaration that lists its members. -/
def headText (schema : Schema) (settings : Settings) (asInterface : Bool) : List Char :=
  if asInterface then "interface ".toList ++ (settings.typeName schema).toList ++ [' ']
  else "type ".toList ++ (settings.typeName schema).toList ++ " = ".toList

theorem isHead_headText {schema : Schema} {settings : Settings}
    (h : IsName (settings.typeName schema)) (asInterface : Bool) :
    IsHead (settings.typeName schema).toList (headText schema settings asInterface) := by
  have hne : (settings.typeName schema).toList ≠ [] :=
    fun he => h.ne_empty (String.toList_eq_nil_iff.mp he)
  have hblank : ∀ c ∈ [' '], isBlank c = true := List.all_eq_true.mp (by decide)
  unfold headText
  split
  · have := IsHead.intro (Or.inl rfl) hblank (by simp) h.isWord hne (.blanks hblank)
    simpa using this
  · have := IsHead.intro (Or.inr rfl) hblank (by simp) h.isWord hne (.equals hblank hblank)
    simpa using this

/-- **A declaration that lists its members, as characters**: what stands before its head, the head,
    and the body between its braces. -/
theorem toList_explicit (schema : Schema) (settings : Settings) (asInterface : Bool) :
    ∃ rest, (explicit schema settings asInterface).toList
      = frontText schema settings ++ (headText schema settings asInterface
          ++ '\x7b' :: (bodyText settings schema.fields ++ '\x7d' :: rest)) := by
  have hopen : lineText (openLine schema settings asInterface)
      = settings.exportWord.toList ++ (headText schema settings asInterface ++ ['\x7b', '\n']) := by
    unfold openLine headText lineText
    cases asInterface <;> simp
  have hclose : ∃ rest, (closeLine settings asInterface).toList = '\x7d' :: rest := by
    unfold closeLine
    split
    · exact ⟨[], rfl⟩
    · exact ⟨settings.semicolon.toList, by rw [String.toList_append]; rfl⟩
  obtain ⟨rest, hrest⟩ := hclose
  refine ⟨rest, ?_⟩
  have hbody : (schema.fields.flatMap (memberLines settings)).flatMap lineText
      = schema.fields.flatMap (fieldText settings) := by
    rw [List.flatMap_assoc]
    exact congrArg (fun f => schema.fields.flatMap f)
      (funext fun field => flatMap_lineText_memberLines settings field)
  rw [explicit, toList_intercalate_newline, hrest]
  simp only [List.flatMap_append, List.flatMap_cons, hopen, hbody, frontText, bodyText,
    List.append_assoc, List.cons_append, List.nil_append]

/-- What stands before the head does not end inside a word. -/
theorem endsOutsideWord_frontText (schema : Schema) (settings : Settings) :
    EndsOutsideWord (frontText schema settings) := by
  intro c hc
  unfold frontText Settings.exportWord at hc
  split at hc
  · -- the blank after `export`
    rw [getLast?_append_right (by decide)] at hc
    have : ' ' = c := Option.some.inj hc
    rw [← this]
    decide
  · rw [show "".toList = [] from rfl, List.append_nil] at hc
    cases hdoc : settings.schemaDoc schema with
    | none =>
        rw [hdoc] at hc
        exact absurd hc (by simp [Comment.block?])
    | some text =>
        -- the end of the comment's last line
        have hblock : (Comment.block? (some text) []).flatMap lineText
            = (lineText "/**" ++ lineText (" * " ++ text) ++ [' ', '*', '/']) ++ ['\n'] := by
          simp [Comment.block?, Comment.block, lineText]
        rw [hdoc, hblock, List.getLast?_concat] at hc
        have : '\n' = c := Option.some.inj hc
        rw [← this]
        decide

/-- The comment of a description has no opening brace of its own. -/
theorem brace_not_mem_block? {doc : Option String} {more : List String}
    (hdoc : ∀ text, doc = some text → '\x7b' ∉ text.toList)
    (hmore : ∀ line ∈ more, '\x7b' ∉ line.toList) :
    '\x7b' ∉ (Comment.block? doc more).flatMap lineText := by
  cases doc with
  | none => exact List.not_mem_nil
  | some text =>
      have hlines : '\x7b' ∉ (more.map (" * " ++ ·)).flatMap lineText := by
        intro hmem
        obtain ⟨line, hline, hin⟩ := List.mem_flatMap.mp hmem
        obtain ⟨inside, hinside, rfl⟩ := List.mem_map.mp hline
        simp [lineText, hmore inside hinside] at hin
      have htext : '\x7b' ∉ lineText (" * " ++ text) := by
        simp [lineText, hdoc text rfl]
      show '\x7b' ∉ (["/**", " * " ++ text] ++ more.map (" * " ++ ·) ++ [" */"]).flatMap lineText
      rw [List.flatMap_append, List.flatMap_append, List.mem_append, List.mem_append]
      refine not_or.mpr ⟨not_or.mpr ⟨?_, hlines⟩, by decide⟩
      rw [List.flatMap_cons, List.flatMap_singleton, List.mem_append]
      exact not_or.mpr ⟨by decide, htext⟩

theorem brace_not_mem_exportWord (settings : Settings) : '\x7b' ∉ settings.exportWord.toList :=
  settings.not_mem_exportWord (by decide)

/-- What stands before the head has no opening brace unless the description has one. -/
theorem brace_not_mem_front {schema : Schema} {settings : Settings}
    (hdoc : ∀ text, settings.schemaDoc schema = some text → '\x7b' ∉ text.toList) :
    '\x7b' ∉ frontText schema settings := by
  unfold frontText
  rw [List.mem_append, not_or]
  exact ⟨brace_not_mem_block? hdoc (fun _ hline => nomatch hline),
    brace_not_mem_exportWord settings⟩

theorem brace_not_mem_frontText {schema : Schema} {settings : Settings}
    (h : IsRecoverable settings schema) : '\x7b' ∉ frontText schema settings := by
  refine brace_not_mem_front fun text hdoc => ?_
  obtain ⟨hcomments, hsome⟩ := Settings.schemaDoc_eq_some hdoc
  exact h.schemaDoc hcomments text hsome

theorem brace_not_mem_bodyText {schema : Schema} {settings : Settings}
    (h : IsRecoverable settings schema) : '\x7d' ∉ bodyText settings schema.fields := by
  unfold bodyText
  rw [List.mem_cons, not_or]
  refine ⟨by decide, fun hmem => ?_⟩
  obtain ⟨field, hfield, hmem⟩ := List.mem_flatMap.mp hmem
  unfold fieldText at hmem
  have hname : '\x7d' ∉ field.name.toList := fun hin => by
    have := (h.names field hfield).isWord _ hin
    exact absurd this (by decide)
  have hmark : '\x7d' ∉ optionalMark (!field.required) := by
    unfold optionalMark
    split <;> decide
  have hsemicolon : '\x7d' ∉ settings.semicolon.toList := settings.not_mem_semicolon (by decide)
  have hdoc : '\x7d' ∉ docText (settings.fieldDoc field) := by
    cases hd : settings.fieldDoc field with
    | none => simp [docText]
    | some text => simp [docText, docInside, (isDocLine_of_fieldDoc h hfield hd).1.brace]
  simp [hname, hmark, hsemicolon, hdoc, brace_not_mem_type (h.values field hfield)] at hmem

/-- **Importing an emitted type gives the schema back**: for every style that lists the members, the
    declaration of a recoverable schema is read as its name with the suffix and, for each field in
    order, its name, its flags, its emitted description, and what its type shows of its rules. -/
theorem schema_declaration {settings : Settings} {schema : Schema}
    (hstyle : settings.typeStyle ≠ .infer) (h : IsRecoverable settings schema) :
    Import.schema (declaration schema settings) = .ok (schema.recovered settings) := by
  have hexplicit : ∃ asInterface, declaration schema settings = explicit schema settings asInterface := by
    unfold declaration
    split
    · exact absurd ‹_› hstyle
    · exact ⟨true, rfl⟩
    · exact ⟨false, rfl⟩
  obtain ⟨asInterface, hexplicit⟩ := hexplicit
  obtain ⟨rest, htext⟩ := toList_explicit schema settings asInterface
  have hfind := find?_append rest (isHead_headText h.typeName asInterface)
    (brace_not_mem_frontText h) (endsOutsideWord_frontText schema settings)
    (by simp [bodyText] : bodyText settings schema.fields ≠ []) (brace_not_mem_bodyText h)
  unfold Import.schema
  rw [hexplicit, htext, hfind]
  show Except.ok _ = _
  rw [fieldsOfItems_bodyText h, String.ofList_toList]
  rfl

/-- A schema with a literal that holds a comment mark, one that reads as null, collections and
    unions without a type of their own, and a description that looks like the start of an alias. -/
def order : Schema where
  name := "Order"
  description := some "What a shop keeps.\nSee type Order ="
  fields :=
    [{ name := "id", description := some "Unique; never reused", rules := .string { uuid := true } },
     { name := "state", required := false, nullable := true, defaultValue := some "open",
       rules := .enum { values := ["open", "http://shop", "null"] } },
     { name := "tags", nullable := true, rules := .array { item := .enum, min := some 1 } none },
     { name := "gone", rules := .enum {} }]

/-- The order is recoverable under an alias with a suffix, and its type is read back. -/
theorem schema_declaration_order :
    IsRecoverable { typeStyle := .type, typeSuffix := "Type", semicolons := false } order ∧
    Import.schema (declaration order
        { typeStyle := .type, typeSuffix := "Type", semicolons := false })
      = .ok
          { name := "OrderType"
            fields :=
              [{ name := "id", description := some "Unique; never reused",
                 rules := .empty .string },
               { name := "state", required := false, nullable := true,
                 rules := .oneOf ["open", "http://shop", "null"] },
               { name := "tags", nullable := true, rules := .arrayOf .string },
               { name := "gone", rules := .empty .string }] } := by
  have hrecoverable :
      IsRecoverable { typeStyle := .type, typeSuffix := "Type", semicolons := false } order := by
    refine ⟨⟨by decide, List.all_eq_true.mp (by decide)⟩, ?_, ?_, ?_, ?_⟩
    · intro field hfield
      simp only [order, List.mem_cons, List.not_mem_nil, or_false] at hfield
      rcases hfield with rfl | rfl | rfl | rfl <;>
        exact ⟨by decide, List.all_eq_true.mp (by decide)⟩
    · intro field hfield
      simp only [order, List.mem_cons, List.not_mem_nil, or_false] at hfield
      rcases hfield with rfl | rfl | rfl | rfl
      · exact trivial
      · intro value hvalue
        simp only [List.mem_cons, List.not_mem_nil, or_false] at hvalue
        rcases hvalue with rfl | rfl | rfl <;>
          exact ⟨by decide, List.all_iff_forall_prop.mp (by decide)⟩
      · exact trivial
      · intro value hvalue
        exact absurd hvalue (by simp)
    · intro _ text htext
      have : "What a shop keeps.\nSee type Order =" = text := Option.some.inj htext
      rw [← this]
      decide
    · intro _ field hfield text htext
      simp only [order, List.mem_cons, List.not_mem_nil, or_false] at hfield
      rcases hfield with rfl | rfl | rfl | rfl
      · have : "Unique; never reused" = text := Option.some.inj htext
        rw [← this]
        exact ⟨by decide, isTrimmed_of_trim (by decide), by decide, noClose_of_not_mem (by decide),
          by decide⟩
      · exact absurd htext (by simp [Field.doc, nonempty?])
      · exact absurd htext (by simp [Field.doc, nonempty?])
      · exact absurd htext (by simp [Field.doc, nonempty?])
  have himport := schema_declaration (by decide) hrecoverable
  refine ⟨hrecoverable, himport.trans ?_⟩
  simp [Schema.recovered, Field.recovered, Rules.recovered, order, Settings.fieldDoc, Field.doc,
    nonempty?, Settings.typeName, Kind.isPrimitive]

end SchemaForge.TypeScript.Import
