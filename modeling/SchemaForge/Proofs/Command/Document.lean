import SchemaForge.Proofs.Command.Routes
import SchemaForge.Proofs.Import.Toml
import SchemaForge.Proofs.Import.Yaml

/-!
# `Proofs.Command.Document` — the document that an import prints

A rendered document is read back as the schema, in every format. The import prints it without the
white space at its end. In a JSON or TOML document a bracket, a brace or a quote stands before the
last line feed, so that nothing is lost; a YAML document may end in a literal without quotes, and
white space at the end of that literal is lost with the line feed.

## Contents
- **Ends.** `EndsLine`, and when trimming leaves a text as it is.
- **TOML.** `endsLine_render_toml`.
- **YAML.** `Schema.endsInBlank`, and `endsLine_render_yaml`.
- **Runs.** `run_import_document`.
-/

namespace SchemaForge

open Document Text

variable {source : List Char}

/-! ## The last line of a text -/

/-- A text ends in a line feed after a line that is not empty. The line ends in a character that can
    be seen if and only if `visibly` holds. -/
def EndsLine (visibly : Prop) (text : String) : Prop :=
  ∃ front, text = front ++ "\n" ∧ front ≠ "" ∧ (EndsVisibly front ↔ visibly)

theorem EndsVisibly.ne_empty {text : String} (h : EndsVisibly text) : text ≠ "" := by
  obtain ⟨c, hlast, -⟩ := h
  rintro rfl
  exact nomatch hlast

/-- A text that is put before another one that is not empty does not change how it ends. -/
theorem endsVisibly_append {text : String} (hne : text ≠ "") (front : String) :
    EndsVisibly (front ++ text) ↔ EndsVisibly text := by
  refine ⟨fun h => ?_, fun h => h.append_left front⟩
  obtain ⟨c, hlast, hc⟩ := h
  refine ⟨c, ?_, hc⟩
  rw [String.toList_append, List.getLast?_append] at hlast
  cases htext : text.toList.getLast? with
  | none => exact absurd (String.toList_eq_nil_iff.mp (List.getLast?_eq_none_iff.mp htext)) hne
  | some d =>
      rw [htext] at hlast
      exact hlast

variable {visibly : Prop} {text : String}

theorem EndsLine.append_left (h : EndsLine visibly text) (start : String) :
    EndsLine visibly (start ++ text) := by
  obtain ⟨front, rfl, hne, hvisibly⟩ := h
  refine ⟨start ++ front, String.append_assoc.symm, fun he => ?_, ?_⟩
  · exact hne (String.append_eq_empty_iff.mp he).2
  · rw [endsVisibly_append hne, hvisibly]

theorem EndsVisibly.endsLine (h : EndsVisibly text) : EndsLine True (text ++ "\n") :=
  ⟨text, rfl, h.ne_empty, iff_true_intro h⟩

/-- **Trimmed lines are the same text if and only if the last one ends visibly.** -/
theorem EndsLine.trimmedLines_eq_iff (h : EndsLine visibly text) :
    Command.trimmedLines text = text ↔ visibly := by
  obtain ⟨front, rfl, hne, hvisibly⟩ := h
  rw [Command.trimmedLines_append_newline, ← hvisibly]
  refine ⟨fun he => ?_, Command.trimmedLines_of_endsVisibly⟩
  have htrim : trimEnd front.toList = front.toList := by
    have hchars := congrArg String.toList he
    rw [Command.trimmedLines, String.toList_append, String.toList_append, String.toList_ofList] at hchars
    exact List.append_cancel_right hchars
  obtain ⟨init, c, hfront⟩ : ∃ init c, front.toList = init ++ [c] := by
    have hchars : front.toList ≠ [] := fun h => hne (String.toList_eq_nil_iff.mp h)
    exact ⟨_, _, (List.dropLast_concat_getLast hchars).symm⟩
  refine ⟨c, by rw [hfront, List.getLast?_concat], Bool.eq_false_iff.mpr fun hblank => ?_⟩
  rw [hfront, trimEnd_append_blank hblank] at htrim
  have hlength := (isPrefix_trimEnd init).length_le
  rw [htrim, List.length_append, List.length_singleton] at hlength
  omega

/-! ## TOML documents -/

namespace Document.Toml

theorem endsVisibly_quoted (text : String) : EndsVisibly (quoted text) := by
  have hends : ∀ {mark : String}, EndsVisibly mark → ∀ hasLines inside,
      EndsVisibly (enclosed mark hasLines inside) := fun h _ _ => h.append_left _
  have hsingle : EndsVisibly "'" := ⟨'\'', rfl, by decide⟩
  have hsingles : EndsVisibly "'''" := ⟨'\'', rfl, by decide⟩
  have hdouble : EndsVisibly "\"" := ⟨'"', rfl, by decide⟩
  have hdoubles : EndsVisibly "\"\"\"" := ⟨'"', rfl, by decide⟩
  unfold quoted
  dsimp only
  split_ifs
  · exact hends hdouble _ _
  · exact hends hsingle _ _
  · exact hends hdoubles _ _
  · exact hends hsingles _ _
  · exact hends hdoubles _ _
  · exact hends hdouble _ _

/-- A line with an entry ends visibly. -/
theorem endsVisibly_entryText {entry : String × Value} (h : TakesLine entry) :
    EndsVisibly (entryText entry) := by
  obtain ⟨key, value⟩ := entry
  refine EndsVisibly.append_left ?_ _
  cases h.value with
  | bool value => cases value <;> rw [inlineText] <;> exact ⟨'e', rfl, by decide⟩
  | @text text _ =>
      rw [inlineText]
      exact endsVisibly_quoted text
  | texts _ =>
      rw [inlineText]
      exact EndsVisibly.append_left ⟨']', rfl, by decide⟩ _

theorem endsLine_linesText {texts : List String} (hne : texts ≠ []) (h : ∀ line ∈ texts, EndsVisibly line)
    (lines : List String) : EndsLine True (linesText (lines ++ texts)) := by
  obtain ⟨line, hline⟩ : ∃ line, texts = texts.dropLast ++ [line] :=
    ⟨_, (List.dropLast_concat_getLast hne).symm⟩
  have htext : linesText [line] = line ++ "\n" := by
    unfold linesText
    rw [List.map_singleton, String.join_cons]
    exact String.append_empty
  rw [hline, ← List.append_assoc, linesText_append, htext]
  exact (h line (by rw [hline]; simp)).endsLine.append_left _

/-- **The TOML document of an imported schema ends visibly.** -/
theorem endsLine_write {schema : Schema} (h : schema.IsProduced source) {description : String}
    (hdescription : '\n' ∉ description.toList) :
    EndsLine True (write (schema.describe description).toValue) := by
  have hentries : ∀ {entries : List (String × Value)}, (∀ entry ∈ entries, TakesLine entry) →
      ∀ line ∈ entries.map entryText, EndsVisibly line := fun h =>
    List.forall_mem_map.mpr fun entry hentry => endsVisibly_entryText (h entry hentry)
  rw [write_toValue h hdescription, schemaLines, List.map_append]
  rcases List.eq_nil_or_concat schema.fields with hfields | ⟨fields, field, hfields⟩
  · have hlines : ((schema.lineEntries description).map entryWritten).map Prod.fst
        ++ (schema.fields.flatMap fieldLines).map Prod.fst
          = [] ++ (schema.lineEntries description).map entryText := by
      simp [hfields, entryWritten, Function.comp_def]
    rw [hlines]
    exact endsLine_linesText (by simp [Schema.lineEntries]) (hentries (takesLine_schema h hdescription)) _
  · -- the last lines are the header of the last rules and what stands below it
    have hfield : field ∈ schema.fields := by simp [hfields]
    have hlines : (schema.fields.flatMap fieldLines).map Prod.fst
        = ((fields.flatMap fieldLines).map Prod.fst
            ++ ("" :: "[[fields]]" :: field.lineEntries.map entryText ++ [""]))
          ++ "[fields.validations]" :: field.rules.memberEntries.map entryText := by
      simp [hfields, fieldLines, entryWritten, Function.comp_def]
    rw [hlines, ← List.append_assoc]
    exact endsLine_linesText (List.cons_ne_nil _ _) (List.forall_mem_cons.mpr ⟨⟨']', rfl, by decide⟩,
      hentries (takesLine_memberEntries (h.fields field hfield).rules)⟩) _

end Document.Toml

/-! ## YAML documents -/

namespace Document.Yaml

/-- Whether a text is written without quotes and ends in white space. -/
def endsInBlank (text : String) : Bool :=
  decide (formOf text.toList = .plain) && (text.toList.getLast?.map isBlank).getD false

/-- **A text of one line ends visibly unless it is such a text.** -/
theorem endsLine_textText (indent : Nat) {text : String} (hline : '\n' ∉ text.toList) :
    EndsLine (endsInBlank text = false) (textText indent text) := by
  have hquote : ∀ {quoted : String}, EndsVisibly quoted → formOf text.toList ≠ .plain →
      EndsLine (endsInBlank text = false) (quoted ++ "\n") := by
    intro quoted hends hform
    refine ⟨quoted, rfl, hends.ne_empty, iff_of_true hends ?_⟩
    rw [endsInBlank, decide_eq_false hform, Bool.false_and]
  rcases formOf_cases hline with hform | ⟨hform, -⟩ | hform
  · have hchars := (isPlain_of_formOf hform).2.ne_nil
    rw [textText, hform]
    refine ⟨text, rfl, fun he => hchars (String.toList_eq_nil_iff.mpr he), ?_⟩
    rw [endsInBlank, decide_eq_true hform, Bool.true_and, EndsVisibly]
    cases hlast : text.toList.getLast? with
    | none => exact absurd (List.getLast?_eq_none_iff.mp hlast) hchars
    | some c => simp
  · rw [textText, hform]
    refine hquote ⟨'\'', ?_, by decide⟩ (by rw [hform]; decide)
    rw [String.toList_ofList, singleQuoted, List.getLast?_concat]
  · rw [textText, hform]
    refine hquote ⟨'"', ?_, by decide⟩ (by rw [hform]; decide)
    rw [String.toList_ofList, doubleQuoted, List.getLast?_concat]

theorem exists_intercalate_concat (separator last : String) (parts : List String) :
    ∃ front, separator.intercalate (parts ++ [last]) = front ++ last := by
  induction parts with
  | nil => exact ⟨"", by rw [List.nil_append, String.intercalate_singleton, String.empty_append]⟩
  | cons part parts ih =>
      obtain ⟨front, hfront⟩ := ih
      refine ⟨part ++ separator ++ front, ?_⟩
      rw [List.cons_append, String.intercalate_cons_of_ne_nil (by simp), hfront]
      simp only [String.append_assoc]

/-- A list ends as its last item does. -/
theorem exists_valueText_list (indent : Nat) (items : List Value) (item : Value) :
    ∃ front, valueText false indent (.list (items ++ [item])) = front ++ valueText true indent item := by
  obtain ⟨front, hfront⟩ := exists_intercalate_concat (marginText indent)
    ("-" ++ valueText true indent item) (itemTexts indent items)
  have hitems : itemTexts indent (items ++ [item])
      = itemTexts indent items ++ ["-" ++ valueText true indent item] := by
    simp only [itemTexts_eq_map, List.map_append, List.map_singleton]
  refine ⟨"\n" ++ marginText indent ++ front ++ "-", ?_⟩
  rw [valueText, if_neg Bool.false_ne_true, hitems, hfront]
  · simp only [String.append_assoc]
  · exact fun he => List.append_ne_nil_of_right_ne_nil items (List.cons_ne_nil item []) he

/-- The entries of a table end as the last value does. -/
theorem exists_entryTexts (separator : String) (indent : Nat) (entries : List (String × Value))
    (key : String) (value : Value) :
    ∃ front, separator.intercalate (entryTexts indent (entries ++ [(key, value)]))
      = front ++ valueText false indent value := by
  obtain ⟨front, hfront⟩ := exists_intercalate_concat separator
    (keyText key ++ ":" ++ valueText false indent value) (entryTexts indent entries)
  refine ⟨front ++ keyText key ++ ":", ?_⟩
  rw [entryTexts_eq_map] at hfront ⊢
  rw [List.map_append, List.map_singleton, hfront]
  simp only [String.append_assoc]

theorem exists_valueText_table (isItem : Bool) (indent : Nat) (entries : List (String × Value))
    (key : String) (value : Value) :
    ∃ front, valueText isItem indent (.table (entries ++ [(key, value)]))
      = front ++ valueText false (indent + 2) value := by
  obtain ⟨front, hfront⟩ := exists_entryTexts (marginText (indent + 2)) (indent + 2) entries key value
  rw [valueText, hfront, ← String.append_assoc]
  · exact ⟨_, rfl⟩
  · exact fun he => List.append_ne_nil_of_right_ne_nil entries (List.cons_ne_nil _ []) he

/-- The document of a table ends as its last value does. -/
theorem exists_write (entries : List (String × Value)) (key : String) (value : Value) :
    ∃ front, write (.table (entries ++ [(key, value)])) = front ++ valueText false 0 value := by
  obtain ⟨first, rest, hentries⟩ := List.exists_cons_of_ne_nil
    (List.append_ne_nil_of_right_ne_nil entries (List.cons_ne_nil (key, value) []))
  obtain ⟨front, hfront⟩ := exists_entryTexts (marginText 0) 0 entries key value
  refine ⟨front, ?_⟩
  rw [← hfront, hentries]
  exact String.toList_inj.mp (entriesChars_eq_join (first :: rest))

end Document.Yaml

/-- The last literal of rules, if they are a list of literals. -/
def Rules.lastLiteral? : Rules → Option String
  | enum rules => rules.values.getLast?
  | _          => none

/-- Whether the YAML document of a schema ends in a literal that is written without quotes and ends in
    white space itself. -/
def Schema.endsInBlank (schema : Schema) : Bool :=
  ((schema.fields.getLast?.bind fun field => field.rules.lastLiteral?).map Yaml.endsInBlank).getD false

theorem Rules.IsProduced.endsLine_valueText {rules : Rules} (h : rules.IsProduced source) (indent : Nat) :
    EndsLine ((rules.lastLiteral?.map Yaml.endsInBlank).getD false = false)
      (Yaml.valueText false indent (.table rules.memberEntries)) := by
  cases h with
  | @keyword kind hprimitive =>
      have hnone : (Rules.empty kind).lastLiteral? = none := by cases kind <;> rfl
      rw [hnone, Rules.memberEntries_empty hprimitive, Yaml.valueText]
      exact ⟨" \x7b\x7d", rfl, by decide, iff_of_true ⟨'\x7d', rfl, by decide⟩ rfl⟩
  | @collection kind hprimitive =>
      have hkind : Yaml.endsInBlank kind.name = false := by cases kind <;> decide
      obtain ⟨front, hfront⟩ := Yaml.exists_valueText_table false indent [] "itemType" (.text kind.name)
      have htext := Yaml.endsLine_textText (indent + 2 + 2) (Toml.not_mem_kindName kind)
      rw [hkind] at htext
      rw [Rules.memberEntries_arrayOf, ← List.nil_append [_], hfront, Yaml.valueText]
      exact (htext.append_left " ").append_left front
  | @literals values hne hvalues =>
      obtain ⟨init, value, hlast⟩ : ∃ init value, values = init ++ [value] :=
        ⟨_, _, (List.dropLast_concat_getLast hne).symm⟩
      have hline : '\n' ∉ value.toList := fun hmem =>
        (hvalues value (by rw [hlast]; simp)).plain _ hmem (by simp)
      have hliteral : (Rules.oneOf values).lastLiteral? = some value := by
        show values.getLast? = some value
        rw [hlast, List.getLast?_concat]
      obtain ⟨front, hfront⟩ := Yaml.exists_valueText_table false indent [] "values"
        (.list (values.map .text))
      obtain ⟨front', hfront'⟩ := Yaml.exists_valueText_list (indent + 2) (init.map .text) (.text value)
      rw [hliteral, Rules.memberEntries_oneOf, ← List.nil_append [_], hfront, hlast, List.map_append,
        List.map_singleton, hfront', Yaml.valueText]
      exact (((Yaml.endsLine_textText _ hline).append_left " ").append_left front').append_left front

/-- **The YAML document of an imported schema ends visibly** unless it ends in such a literal. -/
theorem Schema.IsProduced.endsLine_yaml {schema : Schema} (h : schema.IsProduced source)
    (description : String) :
    EndsLine (schema.endsInBlank = false) (Yaml.write (schema.describe description).toValue) := by
  obtain ⟨front, hfront⟩ := Yaml.exists_write
    [("name", .text schema.name), ("description", .text description)] "fields"
    (.list (schema.fields.map Field.toValue))
  have hvalue : (schema.describe description).toValue
      = .table ([("name", .text schema.name), ("description", .text description)]
        ++ [("fields", .list (schema.fields.map Field.toValue))]) := rfl
  rw [hvalue, hfront, Schema.endsInBlank]
  refine EndsLine.append_left ?_ front
  rcases List.eq_nil_or_concat schema.fields with hfields | ⟨fields, field, hfields⟩
  · rw [hfields, List.map_nil, Yaml.valueText]
    exact ⟨" []", rfl, by decide, iff_of_true ⟨']', rfl, by decide⟩ rfl⟩
  · have hrules := (h.fields field (by simp [hfields])).rules
    obtain ⟨front, hfront⟩ := Yaml.exists_valueText_list 0 (fields.map Field.toValue) field.toValue
    obtain ⟨front', hfront'⟩ := Yaml.exists_valueText_table true 0 field.lineEntries "validations"
      (.table field.rules.memberEntries)
    rw [← Field.entries_eq, ← Field.toValue_eq] at hfront'
    rw [hfields, List.concat_eq_append, List.map_append, List.map_singleton, hfront, hfront',
      List.getLast?_concat]
    exact ((hrules.endsLine_valueText 2).append_left front').append_left front

/-! ## Printed documents -/

namespace Document.Format

/-- A document on lines of its own. A JSON text has no line feed at its end. -/
def lines (format : Format) (schema : Schema) : String :=
  match format with
  | json => format.render schema ++ "\n"
  | _    => format.render schema

/-- Whether the white space at the end of a document is part of what it says. -/
def endsInBlank (format : Format) (schema : Schema) : Bool :=
  decide (format = yaml) && schema.endsInBlank

theorem trimmedLines_lines (format : Format) (schema : Schema) :
    Command.trimmedLines (format.render schema) = Command.trimmedLines (format.lines schema) := by
  cases format with
  | json => exact (Command.trimmedLines_append_newline _).symm
  | yaml => rfl
  | toml => rfl

end Document.Format

theorem not_mem_importedDescription : '\n' ∉ Command.importedDescription.toList := by decide

/-- **The document of an imported schema on lines of its own is read back**, in every format. -/
theorem Schema.IsProduced.parse_lines {schema : Schema} (h : schema.IsProduced source) (format : Format) :
    format.parse (format.lines (schema.describe Command.importedDescription))
      = some (schema.describe Command.importedDescription) := by
  cases format with
  | json => exact h.parse_json _ (List.forall_mem_singleton.mpr (rfl : Json.isBlank '\n' = true))
  | yaml => exact h.parse_yaml not_mem_importedDescription
  | toml => exact h.parse_toml not_mem_importedDescription

/-- **These lines end visibly**, unless a literal without quotes ends them in white space. -/
theorem Schema.IsProduced.endsLine_lines {schema : Schema} (h : schema.IsProduced source) (format : Format) :
    EndsLine (format.endsInBlank schema = false)
      (format.lines (schema.describe Command.importedDescription)) := by
  have htrue : ∀ {text}, EndsLine True text → EndsLine (false = false) text := fun h => by
    rwa [eq_self]
  cases format with
  | json => exact htrue (endsVisibly_render_json _).endsLine
  | yaml =>
      have hends := h.endsLine_yaml Command.importedDescription
      rwa [Format.endsInBlank, decide_eq_true rfl, Bool.true_and]
  | toml => exact htrue (Toml.endsLine_write h not_mem_importedDescription)

namespace Session

/-- **The document that an import prints.** For every source with a type and every format the import
    succeeds and prints the trimmed document. These are the lines of the document as they were
    rendered if and only if the document does not end in white space that is part of what it says; and
    then they are read back as the imported schema with its description. -/
theorem run_import_document {start : Session} {configHome path source : String} {flags : List String}
    {style : Layer} {schema : Schema} (format : Format)
    (hstyle : Arguments.styleOf? flags = some style) (hpath : Arguments.isSwitch path = false)
    (hne : path ≠ "") (hsource : start.sourceText path = .ok source)
    (himport : TypeScript.Import.schema source = .ok schema) :
    ∃ after printed,
      start.run configHome ("import" :: path :: "--emit" :: format.name :: flags) = (.success, after) ∧
      after.output = start.output ++ printed ∧
      printed = Command.trimmedLines (format.render (schema.describe Command.importedDescription)) ∧
      (printed = format.lines (schema.describe Command.importedDescription) ↔
        format.endsInBlank schema = false) ∧
      (format.endsInBlank schema = false →
        format.parse printed = some (schema.describe Command.importedDescription)) := by
  have hproduced := TypeScript.Import.isProduced_of_schema himport
  have hlines := (hproduced.endsLine_lines format).trimmedLines_eq_iff
  rw [← Format.trimmedLines_lines] at hlines
  have hword : Arguments.isSwitch format.name = false := by cases format <;> rfl
  have hemission : Emission.ofName? format.name = some (.document format) := by cases format <;> rfl
  have hrun : start.run configHome ("import" :: path :: "--emit" :: format.name :: flags) = _ :=
    run_import hstyle hpath hne hword hemission hsource
  rw [himport] at hrun
  refine ⟨_, _, hrun, ?_, rfl, hlines, fun hends => ?_⟩
  · rw [print, output_afterReading]
    rfl
  · rw [hlines.mpr hends]
    exact hproduced.parse_lines format

/-- A source with one literal. -/
def literalSession (value : String) : Session where
  files := { contents := [(["a.ts"], .text ("type A = \x7b a: '" ++ value ++ "' \x7d"))] }

/-- What is imported of it. -/
def literalSchema (value : String) : Schema where
  name := "A"
  fields := [{ name := "a", rules := .oneOf [value] }]

/-- A literal is read back from the printed YAML document. A no-break space at its end is not: the
    document without it is printed. -/
theorem run_import_document_literal :
    (∃ after, (literalSession "b").run "/home" ["import", "a.ts", "--emit", "yaml"] = (.success, after) ∧
      Format.yaml.parse after.output = some ((literalSchema "b").describe Command.importedDescription)) ∧
    (∃ after, (literalSession "b\u00a0").run "/home" ["import", "a.ts", "--emit", "yaml"]
        = (.success, after) ∧
      Format.yaml.parse after.output = some ((literalSchema "b").describe Command.importedDescription)) := by
  have hplain : Arguments.styleOf? [] = some {} := rfl
  have houtput : ∀ value, (literalSession value).output = "" := fun _ => rfl
  obtain ⟨after, printed, hrun, hprinted, htext, -, hread⟩ := @run_import_document (literalSession "b")
    "/home" "a.ts" _ _ _ (literalSchema "b") .yaml hplain rfl (by decide) rfl rfl
  obtain ⟨after', printed', hrun', hprinted', htext', -, -⟩ := @run_import_document
    (literalSession "b\u00a0") "/home" "a.ts" _ _ _ (literalSchema "b\u00a0") .yaml hplain rfl (by decide)
    rfl rfl
  have hsame : trimEnd (Format.yaml.render
      ((literalSchema "b\u00a0").describe Command.importedDescription)).toList
        = trimEnd (Format.yaml.render
          ((literalSchema "b").describe Command.importedDescription)).toList := by
    decide +kernel
  rw [houtput, String.empty_append] at hprinted hprinted'
  refine ⟨⟨after, hrun, ?_⟩, after', hrun', ?_⟩
  · rw [hprinted]
    exact hread (by decide +kernel)
  · rw [hprinted', htext', Command.trimmedLines, hsame, ← Command.trimmedLines, ← htext]
    exact hread (by decide +kernel)

end Session

end SchemaForge
