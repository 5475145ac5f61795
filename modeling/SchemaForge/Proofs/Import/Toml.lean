import SchemaForge.Proofs.Import.Document
import SchemaForge.Proofs.Toml.Build

/-!
# `Proofs.Import.Toml` — the TOML document of an imported schema

The members of the schema come first. Each field then has a part under a header of its own, and its
rules another one below, so that the document is a list of lines that depends on the fields only. The
lines are read back one by one and build the tables again, field after field.

## Contents
- **Lines.** `schemaLines`, the lines of a document and what each holds.
- **Shape.** `write_toValue`: the document is written as these lines.
- **Reading.** `read?_write_toValue`, and `Schema.IsProduced.parse_toml`.
-/

namespace SchemaForge

open Document

variable {source : List Char}

/-- The entries of a field that take a line each: all but its rules. -/
def Field.lineEntries (field : Field) : List (String × Value) :=
  [("name", .text field.name), ("required", .bool field.required),
      ("nullable", .bool field.nullable)]
    ++ optionalEntry "defaultValue" .text field.defaultValue
    ++ optionalEntry "description" .text field.description
    ++ [("type", .text field.kind.name)]

theorem Field.entries_eq (field : Field) :
    field.entries = field.lineEntries ++ [("validations", .table field.rules.memberEntries)] := by
  unfold Field.entries Field.lineEntries
  rw [List.append_assoc _ [_] [_]]
  rfl

/-- The entries of a schema with a description that take a line each. Its fields do if there are
    none. -/
def Schema.lineEntries (schema : Schema) (description : String) : List (String × Value) :=
  [("name", .text schema.name), ("description", .text description)]
    ++ if schema.fields.isEmpty then [("fields", .list [])] else []

namespace Document.Toml

/-! ## Lines -/

/-- The line of an entry, and what it holds. -/
def entryWritten (entry : String × Value) : String × Line := (entryText entry, entryLine entry)

/-- The lines of a field and what each holds. -/
def fieldLines (field : Field) : List (String × Line) :=
  ("", .blank) :: ("[[fields]]", .element [] "fields") :: field.lineEntries.map entryWritten
    ++ ("", .blank) :: ("[fields.validations]", .table ["fields"] "validations")
      :: field.rules.memberEntries.map entryWritten

/-- The lines of a schema with a description, and what each holds. -/
def schemaLines (schema : Schema) (description : String) : List (String × Line) :=
  (schema.lineEntries description).map entryWritten ++ schema.fields.flatMap fieldLines

/-! ## Shape -/

/-- An entry that takes a line: its key needs no quotes, and neither a header nor an absent value
    stands for it. -/
structure TakesLine (entry : String × Value) : Prop where
  key : IsBare entry.1
  value : IsLineValue entry.2

theorem hasHeader_of_isLineValue {value : Value} (h : IsLineValue value) :
    hasHeader value = false ∧ isAbsent value = false := by
  cases h with
  | bool value => exact ⟨rfl, rfl⟩
  | text hline => exact ⟨rfl, rfl⟩
  | @texts texts hline =>
      refine ⟨?_, rfl⟩
      cases texts <;> rfl

theorem plainLines_of_takesLine {entries : List (String × Value)}
    (h : ∀ entry ∈ entries, TakesLine entry) : plainLines entries = entries.map entryText := by
  unfold plainLines
  rw [List.filter_eq_self.mpr fun entry hentry => by
    rw [(hasHeader_of_isLineValue (h entry hentry).value).1,
      (hasHeader_of_isLineValue (h entry hentry).value).2]
    rfl]
  rfl

theorem entryParts_of_takesLine (path : List String) {entries : List (String × Value)}
    (h : ∀ entry ∈ entries, TakesLine entry) : entryParts path entries = [] := by
  induction entries with
  | nil => rw [entryParts]
  | cons entry entries ih =>
      obtain ⟨key, value⟩ := entry
      have hentry := hasHeader_of_isLineValue (h (key, value) List.mem_cons_self).value
      rw [entryParts, ih fun e he => h e (List.mem_cons_of_mem _ he), hentry.1]
      rfl

theorem entryParts_append (path : List String) (entries more : List (String × Value)) :
    entryParts path (entries ++ more) = entryParts path entries ++ entryParts path more := by
  induction entries with
  | nil => rw [List.nil_append, entryParts, List.nil_append]
  | cons entry entries ih =>
      obtain ⟨key, value⟩ := entry
      rw [List.cons_append, entryParts, ih, entryParts, List.append_assoc]

theorem not_mem_kindName (kind : Kind) : '\n' ∉ kind.name.toList := by
  cases kind <;> decide

theorem not_mem_of_isName {name : String} (h : IsName name) : '\n' ∉ name.toList := fun hmem =>
  absurd (h.isWord _ hmem) (by decide)

/-- The members of imported rules take a line each. -/
theorem takesLine_memberEntries {rules : Rules} (h : rules.IsProduced source) :
    ∀ entry ∈ rules.memberEntries, TakesLine entry := by
  cases h with
  | keyword hprimitive =>
      rw [Rules.memberEntries_empty hprimitive]
      exact fun _ hentry => nomatch hentry
  | @collection kind hprimitive =>
      rw [Rules.memberEntries_arrayOf]
      exact List.forall_mem_singleton.mpr
        ⟨(by decide : IsBare "itemType"), .text (not_mem_kindName kind)⟩
  | @literals values hne hvalues =>
      rw [Rules.memberEntries_oneOf]
      exact List.forall_mem_singleton.mpr ⟨(by decide : IsBare "values"),
        .texts fun value hvalue hline => (hvalues value hvalue).plain _ hline (by simp)⟩

theorem takesLine_lineEntries {field : Field} (h : field.IsProduced source) :
    ∀ entry ∈ field.lineEntries, TakesLine entry := by
  have hname : TakesLine ("name", .text field.name) :=
    ⟨(by decide : IsBare "name"), .text (not_mem_of_isName h.name)⟩
  have hrequired : TakesLine ("required", .bool field.required) :=
    ⟨(by decide : IsBare "required"), .bool _⟩
  have hnullable : TakesLine ("nullable", .bool field.nullable) :=
    ⟨(by decide : IsBare "nullable"), .bool _⟩
  have htype : TakesLine ("type", .text field.kind.name) :=
    ⟨(by decide : IsBare "type"), .text (not_mem_kindName _)⟩
  have hdescription : ∀ entry ∈ optionalEntry "description" Value.text field.description,
      TakesLine entry := by
    cases hfound : field.description with
    | none => exact fun _ hentry => nomatch hentry
    | some text =>
        exact List.forall_mem_singleton.mpr
          ⟨(by decide : IsBare "description"), .text (h.description text hfound).line⟩
  intro entry hentry
  unfold Field.lineEntries at hentry
  rw [h.defaultValue] at hentry
  simp only [optionalEntry, List.append_nil, List.cons_append, List.nil_append, List.mem_cons,
    List.mem_append, List.not_mem_nil, or_false] at hentry
  rcases hentry with rfl | rfl | rfl | hentry | rfl
  · exact hname
  · exact hrequired
  · exact hnullable
  · exact hdescription entry hentry
  · exact htype

/-- The members of the schema take a line each. -/
theorem takesLine_schema {schema : Schema} (h : schema.IsProduced source) {description : String}
    (hdescription : '\n' ∉ description.toList) :
    ∀ entry ∈ schema.lineEntries description, TakesLine entry := by
  have hfields : ∀ entry ∈ if schema.fields.isEmpty then [("fields", Value.list [])] else [],
      TakesLine entry := by
    have hnone : IsLineValue (.list (([] : List String).map .text)) :=
      .texts fun _ htext => nomatch htext
    split
    · exact List.forall_mem_singleton.mpr ⟨(by decide : IsBare "fields"), hnone⟩
    · exact fun _ hentry => nomatch hentry
  refine List.forall_mem_cons.mpr ⟨?_, List.forall_mem_cons.mpr ⟨?_, hfields⟩⟩
  · exact ⟨(by decide : IsBare "name"), .text (not_mem_of_isName h.name)⟩
  · exact ⟨(by decide : IsBare "description"), .text hdescription⟩

/-- The parts of a field: its own entries, and those of its rules. -/
theorem itemParts_fields {fields : List Field} (h : ∀ field ∈ fields, field.IsProduced source) :
    itemParts ["fields"] (fields.map Field.toValue)
      = fields.flatMap fun field =>
          ["[[fields]]" :: field.lineEntries.map entryText,
           "[fields.validations]" :: field.rules.memberEntries.map entryText] := by
  induction fields with
  | nil =>
      rw [List.map_nil, itemParts]
      rfl
  | cons field fields ih =>
      have hlines := takesLine_lineEntries (h field List.mem_cons_self)
      have hmembers := takesLine_memberEntries (h field List.mem_cons_self).rules
      have hplain : plainLines field.entries = field.lineEntries.map entryText := by
        rw [Field.entries_eq, ← plainLines_of_takesLine hlines]
        unfold plainLines
        rw [List.filter_append, List.filter_cons_of_neg (by simp [hasHeader]), List.filter_nil,
          List.append_nil]
      have hneeds : needsHeader field.rules.memberEntries = true := by
        unfold needsHeader
        rw [plainLines_of_takesLine hmembers]
        cases field.rules.memberEntries <;> rfl
      have hparts : entryParts ["fields"] field.entries
          = ["[fields.validations]" :: field.rules.memberEntries.map entryText] := by
        rw [Field.entries_eq, entryParts_append, entryParts_of_takesLine _ hlines, entryParts,
          hasHeader, if_pos rfl, entryParts, valueParts, hneeds, if_pos rfl,
          plainLines_of_takesLine hmembers, entryParts_of_takesLine _ hmembers]
        rfl
      rw [List.map_cons, Field.toValue_eq, itemParts, hplain, hparts,
        ih fun f hf => h f (List.mem_cons_of_mem field hf)]
      rfl

theorem linesText_append (texts more : List String) :
    linesText (texts ++ more) = linesText texts ++ linesText more := by
  unfold linesText
  rw [List.map_append, String.join_append]

/-- Parts are joined by lines without text. -/
theorem intercalate_linesText (part : List String) (parts : List (List String)) :
    "\n".intercalate ((part :: parts).map linesText)
      = linesText (part ++ parts.flatMap ("" :: ·)) := by
  induction parts generalizing part with
  | nil => rw [List.map_singleton, String.intercalate_singleton, List.flatMap_nil, List.append_nil]
  | cons next parts ih =>
      have hblank : linesText ("" :: (next ++ parts.flatMap ("" :: ·)))
          = "\n" ++ linesText (next ++ parts.flatMap ("" :: ·)) := by
        unfold linesText
        rw [List.map_cons, String.join_cons]
        rfl
      rw [List.map_cons, String.intercalate_cons_of_ne_nil (by simp), ih next, List.flatMap_cons,
        List.cons_append, linesText_append part, hblank, String.append_assoc]

/-- **The document of an imported schema is written line by line.** -/
theorem write_toValue {schema : Schema} (h : schema.IsProduced source) {description : String}
    (hdescription : '\n' ∉ description.toList) :
    write (schema.describe description).toValue
      = linesText ((schemaLines schema description).map Prod.fst) := by
  let texts : List (String × Value) :=
    [("name", .text schema.name), ("description", .text description)]
  have hvalue : (schema.describe description).toValue
      = .table (texts ++ [("fields", .list (schema.fields.map Field.toValue))]) := rfl
  have htexts : ∀ entry ∈ texts, TakesLine entry := fun entry hentry =>
    takesLine_schema h hdescription entry (List.mem_append_left _ hentry)
  have hfields : hasHeader (.list (schema.fields.map Field.toValue)) = !schema.fields.isEmpty := by
    have hall : (schema.fields.map Field.toValue).all isTable = true := by
      simp [Field.toValue_eq, isTable]
    rw [hasHeader, hall, Bool.and_true, List.isEmpty_map]
  have hplain : plainLines (texts ++ [("fields", .list (schema.fields.map Field.toValue))])
      = (schema.lineEntries description).map entryText := by
    have hfirst := plainLines_of_takesLine htexts
    unfold plainLines at hfirst ⊢
    rw [List.filter_append, List.map_append, hfirst, List.filter_singleton, hfields]
    unfold Schema.lineEntries
    cases schema.fields <;> rfl
  have hentries : entryParts [] (texts ++ [("fields", .list (schema.fields.map Field.toValue))])
      = schema.fields.flatMap fun field =>
          ["[[fields]]" :: field.lineEntries.map entryText,
           "[fields.validations]" :: field.rules.memberEntries.map entryText] := by
    rw [entryParts_append, entryParts_of_takesLine _ htexts, List.nil_append, entryParts, entryParts,
      hfields, List.append_nil, valueParts, List.nil_append, itemParts_fields h.fields]
    cases schema.fields <;> rfl
  have hne : ((schema.lineEntries description).map entryText).isEmpty = false := rfl
  rw [hvalue, write, hplain, hentries, hne]
  show "\n".intercalate ((_ :: _).map linesText) = _
  rw [intercalate_linesText]
  unfold schemaLines fieldLines entryWritten
  simp [List.map_flatMap, List.flatMap_assoc, Function.comp_def]

/-! ## Reading -/

theorem readsAs_entryWritten {entries : List (String × Value)} (h : ∀ entry ∈ entries, TakesLine entry) :
    ∀ line ∈ entries.map entryWritten, ReadsAs line.1 line.2 := by
  intro line hline
  obtain ⟨entry, hentry, rfl⟩ := List.mem_map.mp hline
  exact readsAs_entry (h entry hentry).key (h entry hentry).value

/-- **Every line of the document is read as what it was written for.** -/
theorem readsAs_schemaLines {schema : Schema} (h : schema.IsProduced source) {description : String}
    (hdescription : '\n' ∉ description.toList) :
    ∀ line ∈ schemaLines schema description, ReadsAs line.1 line.2 := by
  intro line hline
  rcases List.mem_append.mp hline with hline | hline
  · exact readsAs_entryWritten (takesLine_schema h hdescription) line hline
  · obtain ⟨field, hfield, hline⟩ := List.mem_flatMap.mp hline
    have hproduced := h.fields field hfield
    unfold fieldLines at hline
    simp only [List.mem_cons, List.mem_append, List.cons_append] at hline
    rcases hline with rfl | rfl | hline | rfl | rfl | hline
    · exact readsAs_blank
    · exact readsAs_fields
    · exact readsAs_entryWritten (takesLine_lineEntries hproduced) line hline
    · exact readsAs_blank
    · exact readsAs_validations
    · exact readsAs_entryWritten (takesLine_memberEntries hproduced.rules) line hline

/-- The table that the lines of a field build. -/
def fieldItems (field : Field) : List (String × Item) :=
  field.lineEntries.map valueItem
    ++ [("validations", .table .header (field.rules.memberEntries.map valueItem))]

/-- The keys of a field's entries differ, also from the one of its rules. -/
theorem nodup_lineEntries (field : Field) :
    (field.lineEntries.map Prod.fst).Nodup ∧ "validations" ∉ field.lineEntries.map Prod.fst := by
  have hnodup : (field.entries.map Prod.fst).Nodup := field.keys_entries.nodup (by decide)
  rw [Field.entries_eq, List.map_append, List.nodup_append] at hnodup
  exact ⟨hnodup.1, fun hmem => hnodup.2.2 _ hmem "validations" List.mem_cons_self rfl⟩

theorem nodup_memberEntries {rules : Rules} (h : rules.IsProduced source) :
    (rules.memberEntries.map Prod.fst).Nodup := by
  cases h with
  | keyword hprimitive =>
      rw [Rules.memberEntries_empty hprimitive]
      exact List.nodup_nil
  | collection => exact List.pairwise_singleton _ _
  | literals => exact List.pairwise_singleton _ _

theorem map_snd_entryWritten (entries : List (String × Value)) :
    (entries.map entryWritten).map Prod.snd = entries.map entryLine := by
  rw [List.map_map]
  rfl

theorem keys_map_valueItem (entries : List (String × Value)) :
    (entries.map valueItem).map Prod.fst = entries.map Prod.fst := by
  rw [List.map_map]
  rfl

/-- **The lines of a field append its table**, wherever entries went before. -/
theorem foldlM_fieldLines {field : Field} (h : field.IsProduced source) {top : List (String × Item)}
    (htop : "fields" ∉ top.map Prod.fst) (tables : List (List (String × Item)))
    (current : List String) :
    ((fieldLines field).map Prod.snd).foldlM Build.step?
        ⟨⟨.header, withTables top "fields" tables⟩, current⟩
      = some ⟨⟨.header, withTables top "fields" (fieldItems field :: tables)⟩,
          ["fields", "validations"]⟩ := by
  obtain ⟨hnodup, hrules⟩ := nodup_lineEntries field
  have hrulesItem : "validations" ∉ (field.lineEntries.map valueItem).map Prod.fst := by
    rwa [keys_map_valueItem]
  have hentries := foldlM_entries (acceptsEntries_element htop tables) [] field.lineEntries hnodup
  have hmembers := foldlM_entries (acceptsEntries_inner htop tables hrulesItem) []
    field.rules.memberEntries (nodup_memberEntries h.rules)
  have hblank : ∀ build : Build, build.step? .blank = some build := fun _ => rfl
  simp only [fieldLines, List.cons_append, List.map_cons, List.map_append, map_snd_entryWritten,
    List.foldlM_cons, List.foldlM_append, hblank, step?_element htop, hentries,
    step?_table htop tables hrulesItem, hmembers, Option.bind_eq_bind, Option.bind_some,
    List.nil_append]
  rfl

/-- **The lines of all fields append their tables** in their order. -/
theorem foldlM_fields {fields : List Field} (h : ∀ field ∈ fields, field.IsProduced source)
    {top : List (String × Item)} (htop : "fields" ∉ top.map Prod.fst)
    (tables : List (List (String × Item))) (current : List String) :
    ∃ last, ((fields.flatMap fieldLines).map Prod.snd).foldlM Build.step?
        ⟨⟨.header, withTables top "fields" tables⟩, current⟩
      = some ⟨⟨.header, withTables top "fields" ((fields.map fieldItems).reverse ++ tables)⟩, last⟩ := by
  induction fields generalizing tables current with
  | nil => exact ⟨current, rfl⟩
  | cons field fields ih =>
      obtain ⟨last, hlast⟩ := ih (fun f hf => h f (List.mem_cons_of_mem field hf))
        (fieldItems field :: tables) ["fields", "validations"]
      refine ⟨last, ?_⟩
      rw [List.flatMap_cons, List.map_append, List.foldlM_append,
        foldlM_fieldLines (h field List.mem_cons_self) htop, Option.bind_eq_bind, Option.bind_some,
        hlast, List.map_cons, List.reverse_cons, List.append_assoc, List.singleton_append]

/-! ## Nodes -/

theorem entryNodes_map_valueItem (entries : List (String × Value)) (more : List (String × Item)) :
    Table.entryNodes (entries.map valueItem ++ more)
      = Node.ofEntries entries ++ Table.entryNodes more := by
  induction entries with
  | nil => rw [List.map_nil, List.nil_append, Node.ofEntries, List.nil_append]
  | cons entry entries ih =>
      obtain ⟨key, value⟩ := entry
      rw [List.map_cons, List.cons_append, valueItem, Table.entryNodes, ih, Table.itemNode,
        Node.ofEntries, List.cons_append]

theorem earlierNodes_eq (tables : List (List (String × Item))) (after : List Node) :
    Table.earlierNodes tables after
      = tables.reverse.map (fun entries => .table (Table.entryNodes entries)) ++ after := by
  induction tables generalizing after with
  | nil => rw [Table.earlierNodes, List.reverse_nil, List.map_nil, List.nil_append]
  | cons entries tables ih =>
      rw [Table.earlierNodes, ih, List.reverse_cons, List.map_append, List.append_assoc]
      rfl

/-- The table of a field is its node. -/
theorem entryNodes_fieldItems (field : Field) :
    Node.table (Table.entryNodes (fieldItems field)) = Node.ofValue field.toValue := by
  have hrules := entryNodes_map_valueItem field.rules.memberEntries []
  rw [List.append_nil, Table.entryNodes, List.append_nil] at hrules
  rw [fieldItems, entryNodes_map_valueItem, Table.entryNodes, Table.itemNode, hrules,
    Table.entryNodes, Field.toValue_eq, Field.entries_eq, Node.ofValue, Node.ofEntries_append,
    Node.ofEntries, Node.ofEntries, Node.ofValue]

/-- The array of the fields' tables is the list of their nodes. -/
theorem entryNodes_withTables (entries : List (String × Value)) {fields : List Field}
    (hne : fields ≠ []) :
    Table.entryNodes (withTables (entries.map valueItem) "fields" (fields.map fieldItems).reverse)
      = Node.ofEntries (entries ++ [("fields", .list (fields.map Field.toValue))]) := by
  have hnodes : (fields.map fieldItems).map (fun items => Node.table (Table.entryNodes items))
      = Node.ofItems (fields.map Field.toValue) := by
    rw [Node.ofItems_eq_map, List.map_map, List.map_map]
    exact List.map_congr_left fun field _ => entryNodes_fieldItems field
  cases htables : (fields.map fieldItems).reverse with
  | nil => exact absurd (by simpa using htables) hne
  | cons last earlier =>
      rw [List.reverse_eq_cons_iff] at htables
      rw [htables, List.map_append] at hnodes
      rw [withTables, entryNodes_map_valueItem, Table.entryNodes, Table.itemNode, Table.entryNodes,
        earlierNodes_eq, Node.ofEntries_append, Node.ofEntries_cons, Node.ofValue, Node.ofEntries,
        ← hnodes]
      rfl

/-- **The lines of the document build the tree of the schema.** -/
theorem foldlM_schemaLines {schema : Schema} (h : schema.IsProduced source) (description : String) :
    ∃ build : Build, ((schemaLines schema description).map Prod.snd).foldlM Build.step? {} = some build ∧
      build.root.toNode = Node.ofValue (schema.describe description).toValue := by
  have hkeys : ((schema.lineEntries description).map Prod.fst).Nodup := by
    unfold Schema.lineEntries
    split
    · exact (by decide : ["name", "description", "fields"].Nodup)
    · exact (by decide : ["name", "description"].Nodup)
  have hentries := foldlM_entries acceptsEntries_document [] (schema.lineEntries description) hkeys
  have hvalue : (schema.describe description).toValue
      = .table ([("name", .text schema.name), ("description", .text description)]
        ++ [("fields", .list (schema.fields.map Field.toValue))]) := rfl
  have hstart : ({} : Build) = documentPlace [] := rfl
  unfold schemaLines
  rw [List.map_append, map_snd_entryWritten, List.foldlM_append, hstart, hentries,
    Option.bind_eq_bind, Option.bind_some, hvalue, Node.ofValue]
  cases hfields : schema.fields with
  | nil =>
      refine ⟨_, rfl, ?_⟩
      have hnodes := entryNodes_map_valueItem (schema.lineEntries description) []
      rw [List.append_nil, Table.entryNodes, List.append_nil] at hnodes
      unfold Schema.lineEntries at hnodes ⊢
      rw [hfields] at hnodes ⊢
      exact congrArg Node.table hnodes
  | cons field fields =>
      have htop : "fields" ∉ ((schema.lineEntries description).map valueItem).map Prod.fst := by
        rw [keys_map_valueItem, Schema.lineEntries, hfields]
        exact (by decide : "fields" ∉ ["name", "description"])
      obtain ⟨last, hlast⟩ := foldlM_fields h.fields htop [] []
      rw [hfields] at hlast
      refine ⟨_, hlast, congrArg Node.table ?_⟩
      rw [List.append_nil, entryNodes_withTables _ (List.cons_ne_nil field fields)]
      unfold Schema.lineEntries
      rw [hfields]
      rfl

/-- The document starts with its first key, and with no byte order mark. -/
theorem dropMark_write {schema : Schema} (h : schema.IsProduced source) {description : String}
    (hdescription : '\n' ∉ description.toList) :
    dropMark (write (schema.describe description).toValue).toList
      = (write (schema.describe description).toValue).toList := by
  rw [write_toValue h hdescription]
  show dropMark (linesText (entryText ("name", _) :: _)).toList
    = (linesText (entryText ("name", _) :: _)).toList
  rw [toList_linesText_cons, entryText, keyText_of_isBare (by decide : IsBare "name"),
    String.toList_append, String.toList_append]
  rfl

/-- **The TOML document of an imported schema is read back as its tree.** -/
theorem read?_write_toValue {schema : Schema} (h : schema.IsProduced source) {description : String}
    (hdescription : '\n' ∉ description.toList) :
    read? (write (schema.describe description).toValue)
      = some (Node.ofValue (schema.describe description).toValue) := by
  have hlength := length_le_linesText ((schemaLines schema description).map Prod.fst)
  rw [List.length_map, ← write_toValue h hdescription] at hlength
  have hlines := lines?_linesText (readsAs_schemaLines h hdescription) hlength
  rw [← write_toValue h hdescription] at hlines
  obtain ⟨build, hbuild, hnode⟩ := foldlM_schemaLines h description
  unfold read?
  dsimp only
  rw [dropMark_write h hdescription, hlines, Option.bind_eq_bind, Option.bind_some, hbuild,
    Option.bind_eq_bind, Option.bind_some, hnode]

end Document.Toml

/-- **An imported schema is read back from its TOML text.** -/
theorem Schema.IsProduced.parse_toml {schema : Schema} (h : schema.IsProduced source)
    {description : String} (hdescription : '\n' ∉ description.toList) :
    Format.toml.parse (Format.toml.render (schema.describe description))
      = some (schema.describe description) := by
  have hparse : Format.toml.parse (Format.toml.render (schema.describe description))
      = (Toml.read? (Toml.write (schema.describe description).toValue)).bind
          fun node => Schema.ofNode? node := rfl
  rw [hparse, Toml.read?_write_toValue h hdescription, Option.bind_some, Schema.ofNode?_ofValue]

end SchemaForge
