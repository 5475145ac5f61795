import SchemaForge.Proofs.Import.Document
import SchemaForge.Proofs.Import.Toml
import SchemaForge.Proofs.Yaml.Node

/-!
# `Proofs.Import.Yaml` — the YAML document of an imported schema

The tree of an imported schema is written in block style with plain keys, and its texts have one line
each. It is read back as a node whose texts may keep their characters, which the codec reads like the
node of the tree.

## Contents
- **Shape.** `Schema.IsProduced.isBlock`.
- **Reading.** `Field.IsProduced.ofNode?_valueNode`, `Schema.IsProduced.parse_yaml`.
-/

namespace SchemaForge

open Document Yaml

variable {source : List Char}

/-! ## Shape -/

/-- The keys of an imported schema, of its fields and of their rules. -/
def importedKeys : List String :=
  ["name", "description", "fields", "required", "nullable", "defaultValue", "type", "validations",
    "itemType", "values"]

theorem isPlainKey_of_mem {key : String} (h : key ∈ importedKeys) : IsPlainKey key := by
  have hkeys : ∀ key ∈ importedKeys, formOf key.toList = .plain ∧ key.toList.length ≤ 1024 := by
    decide +kernel
  exact ⟨(hkeys key h).1, (hkeys key h).2⟩

/-- A table with such keys is in block style if its values are. -/
theorem isBlock_table {entries : List (String × Value)} (hkeys : entries.map Prod.fst ⊆ importedKeys)
    (h : ∀ entry ∈ entries, IsBlock entry.2) : IsBlock (.table entries) :=
  .table (fun _ hentry => isPlainKey_of_mem (hkeys (List.mem_map_of_mem hentry))) h

/-- The record of imported rules is in block style. -/
theorem Rules.IsProduced.isBlock {rules : Rules} (h : rules.IsProduced source) :
    IsBlock (.table rules.memberEntries) := by
  cases h with
  | keyword hprimitive =>
      rw [Rules.memberEntries_empty hprimitive]
      exact isBlock_table (List.nil_subset _) fun _ hentry => nomatch hentry
  | @collection kind hprimitive =>
      rw [Rules.memberEntries_arrayOf]
      exact isBlock_table (by decide : ["itemType"] ⊆ importedKeys)
        (List.forall_mem_singleton.mpr (.text (Toml.not_mem_kindName kind)))
  | @literals values hne hvalues =>
      rw [Rules.memberEntries_oneOf]
      refine isBlock_table (by decide : ["values"] ⊆ importedKeys)
        (List.forall_mem_singleton.mpr (.list ?_ ?_))
      · intro item hitem inner he
        obtain ⟨value, -, rfl⟩ := List.mem_map.mp hitem
        exact nomatch he
      · intro item hitem
        obtain ⟨value, hvalue, rfl⟩ := List.mem_map.mp hitem
        exact .text fun hline => (hvalues value hvalue).plain _ hline (by simp)

theorem Field.IsProduced.isBlock {field : Field} (h : field.IsProduced source) :
    IsBlock field.toValue := by
  have hkeys : field.entries.map Prod.fst ⊆ importedKeys := fun key hkey =>
    (by decide : Field.directNames ++ Rules.memberNames ⊆ importedKeys) (field.keys_entries.subset hkey)
  have hdescription : ∀ entry ∈ optionalEntry "description" Value.text field.description,
      IsBlock entry.2 := by
    cases hfound : field.description with
    | none => exact fun _ hentry => nomatch hentry
    | some text => exact List.forall_mem_singleton.mpr (.text (h.description text hfound).line)
  rw [Field.toValue_eq]
  refine isBlock_table hkeys fun entry hentry => ?_
  rw [Field.entries, h.defaultValue] at hentry
  simp only [optionalEntry, List.append_nil, List.mem_append, List.mem_cons, List.not_mem_nil,
    or_false] at hentry
  rcases hentry with ((rfl | rfl | rfl) | hentry) | rfl | rfl
  · exact .text (Toml.not_mem_of_isName h.name)
  · exact .bool _
  · exact .bool _
  · exact hdescription entry hentry
  · exact .text (Toml.not_mem_kindName _)
  · exact h.rules.isBlock

/-- The entries of an imported schema with a description. -/
def Schema.describedEntries (schema : Schema) (description : String) : List (String × Value) :=
  [("name", .text schema.name), ("description", .text description),
    ("fields", .list (schema.fields.map Field.toValue))]

theorem Schema.toValue_describe (schema : Schema) (description : String) :
    (schema.describe description).toValue = .table (schema.describedEntries description) := rfl

/-- **The tree of an imported schema is in block style.** -/
theorem Schema.IsProduced.isBlock {schema : Schema} (h : schema.IsProduced source) {description : String}
    (hdescription : '\n' ∉ description.toList) : IsBlock (schema.describe description).toValue := by
  have hfields : IsBlock (.list (schema.fields.map Field.toValue)) := by
    refine .list ?_ ?_
    · intro item hitem inner he
      obtain ⟨field, -, rfl⟩ := List.mem_map.mp hitem
      rw [Field.toValue_eq] at he
      exact nomatch he
    · intro item hitem
      obtain ⟨field, hfield, rfl⟩ := List.mem_map.mp hitem
      exact (h.fields field hfield).isBlock
  rw [Schema.toValue_describe]
  exact isBlock_table (by decide : ["name", "description", "fields"] ⊆ importedKeys)
    (List.forall_mem_cons.mpr ⟨.text (Toml.not_mem_of_isName h.name),
      List.forall_mem_cons.mpr ⟨.text hdescription, List.forall_mem_singleton.mpr hfields⟩⟩)

/-! ## Reading -/

/-- The members that are read back from the entries of a table. -/
def valueMembers (entries : List (String × Value)) : Members :=
  entries.map fun entry => (entry.1, valueNode entry.2)

/-- **A table with known plain keys that differ has exactly its entries as members.** -/
theorem namedMembers?_entryNodes (mode : Node.Mode) {names : List String}
    {entries : List (String × Value)} (hkeys : ∀ entry ∈ entries, IsPlainKey entry.1)
    (hsublist : (entries.map Prod.fst).Sublist names) (hnodup : names.Nodup) :
    Node.namedMembers? mode names (entryNodes entries) = some (valueMembers entries) := by
  rw [entryNodes_eq_map hkeys]
  exact namedMembers?_map mode textNode valueNode
    (fun entry hentry => keyName?_textNode mode (hsublist.subset (List.mem_map_of_mem hentry)))
    (hsublist.nodup hnodup)

theorem mapM_text?_itemNodes (mode : Node.Mode) (values : List String) :
    (itemNodes (values.map .text)).mapM (Node.text? mode) = some values := by
  induction values with
  | nil =>
      rw [List.map_nil, itemNodes]
      rfl
  | cons value values ih =>
      rw [List.map_cons, itemNodes, valueNode, List.mapM_cons, text?_textNode, ih]
      rfl

theorem Kind.ofNode?_textNode (mode : Node.Mode) (kind : Kind) :
    Kind.ofNode? mode (textNode kind.name) = some kind := by
  have hname : Kind.ofName? kind.name = some kind := by cases kind <;> rfl
  rcases textNode_cases kind.name with h | h <;> rw [h] <;> cases mode <;> exact hname

/-- **The rules of an imported field are recovered** from what is read back of their record. -/
theorem Rules.IsProduced.ofRecord?_valueNode {rules : Rules} (h : rules.IsProduced source)
    (mode : Node.Mode) (readItem : Node → Option Rules) :
    Rules.ofRecord? mode readItem rules.kind (valueNode (.table rules.memberEntries)) = some rules := by
  have hkeys : ∀ entry ∈ rules.memberEntries, IsPlainKey entry.1 := by
    cases h.isBlock with
    | table hkeys => exact hkeys
  cases h with
  | @keyword kind hprimitive =>
      cases kind with
      | enum => exact nomatch hprimitive
      | array => exact nomatch hprimitive
      | _ => rfl
  | @collection kind hprimitive =>
      have hmembers : Node.members? mode ArrayRules.memberNames
          (valueNode (.table (Rules.arrayOf kind).memberEntries))
            = some [("itemType", textNode kind.name)] := by
        rw [valueNode]
        exact namedMembers?_entryNodes mode hkeys (by decide : ["itemType"].Sublist _) (by decide)
      rw [Rules.kind_arrayOf, Rules.ofRecord?, hmembers]
      simp [ArrayRules.ofMembers?, optional?_eq, flag?_eq, optionalOf?, flagOf?, Members.withDefault?,
        Kind.ofNode?_textNode, Rules.arrayOf]
  | @literals values hne hvalues =>
      have hmembers : Node.members? mode EnumRules.memberNames
          (valueNode (.table (Rules.oneOf values).memberEntries))
            = some [("values", .list (itemNodes (values.map .text)))] := by
        rw [valueNode]
        exact namedMembers?_entryNodes mode hkeys (by decide : ["values"].Sublist _) (by decide)
      rw [Rules.kind_oneOf, Rules.ofRecord?, hmembers]
      simp [EnumRules.ofMembers?, Members.withDefault?, Node.items?, mapM_text?_itemNodes, Rules.oneOf]

theorem Field.restReadable_entryNodes {entries : List (String × Value)}
    (hkeys : ∀ entry ∈ entries, IsPlainKey entry.1) (h : ∀ entry ∈ entries, IsBlock entry.2) :
    Field.restReadable (entryNodes entries) = true := by
  rw [entryNodes_eq_map hkeys, Field.restReadable, List.all_map, List.all_eq_true]
  intro entry hentry
  dsimp only [Function.comp]
  rw [text?_textNode]
  dsimp only
  rw [(h entry hentry).isReadable, Bool.or_true]

/-- **An imported field is recovered** from what is read back of its table. -/
theorem Field.IsProduced.ofNode?_valueNode {field : Field} (h : field.IsProduced source) :
    Field.ofNode? (valueNode field.toValue) = some field := by
  have hblock := h.isBlock
  rw [Field.toValue_eq] at hblock
  cases hblock with
  | table hkeys hvalues =>
      have hmembers := namedMembers?_entryNodes .direct hkeys field.keys_entries (by decide)
      have hdefault := h.defaultValue
      rw [Field.toValue_eq, valueNode, Field.ofNode?, hmembers]
      simp only [Field.restReadable_entryNodes hkeys hvalues]
      obtain ⟨name, required, nullable, _, description, rules⟩ := field
      obtain rfl := hdefault
      have hproduced : rules.IsProduced source := h.rules
      have hrules := hproduced.ofRecord?_valueNode .buffered (Rules.ofNode? .buffered)
      cases description <;>
        simp [valueMembers, Field.entries, optionalEntry, Members.required?, optional?_eq, optionalOf?,
          valueNode_text, text?_textNode, optional?_textNode, bool?_valueNode, Field.kind,
          Kind.ofNode?_textNode, hrules]

theorem Schema.fieldsOfNode?_valueNode {fields : List Field} (h : ∀ field ∈ fields, field.IsProduced source) :
    Schema.fieldsOfNode? (valueNode (.list (fields.map Field.toValue))) = some fields := by
  rw [valueNode]
  show List.mapM Field.ofNode? _ = _
  induction fields with
  | nil =>
      rw [List.map_nil, itemNodes]
      rfl
  | cons field fields ih =>
      rw [List.map_cons, itemNodes, List.mapM_cons, (h field List.mem_cons_self).ofNode?_valueNode,
        ih fun field hfield => h field (List.mem_cons_of_mem _ hfield)]
      rfl

/-- **An imported schema is recovered** from what is read back of its tree. -/
theorem Schema.IsProduced.ofNode?_valueNode {schema : Schema} (h : schema.IsProduced source)
    {description : String} (hdescription : '\n' ∉ description.toList) :
    Schema.ofNode? (valueNode (schema.describe description).toValue) = some (schema.describe description) := by
  have hkeys : ∀ entry ∈ schema.describedEntries description, IsPlainKey entry.1 := by
    cases h.isBlock hdescription with
    | table hkeys => exact hkeys
  have hmembers : Node.members? .direct ["name", "description", "fields"]
      (valueNode (schema.describe description).toValue)
        = some (valueMembers (schema.describedEntries description)) := by
    rw [Schema.toValue_describe, valueNode]
    exact namedMembers?_entryNodes .direct hkeys (List.Sublist.refl _) (by decide)
  have hfields := Schema.fieldsOfNode?_valueNode h.fields
  rw [Schema.ofNode?, hmembers]
  simp [valueMembers, Schema.describedEntries, Members.required?, Members.withDefault?, optional?_eq,
    optionalOf?, valueNode_text, text?_textNode, optional?_textNode, hfields]
  rfl

/-- **An imported schema is read back from its YAML text.** -/
theorem Schema.IsProduced.parse_yaml {schema : Schema} (h : schema.IsProduced source)
    {description : String} (hdescription : '\n' ∉ description.toList) :
    Format.yaml.parse (Format.yaml.render (schema.describe description))
      = some (schema.describe description) := by
  have hheight := (h.height_le description).trans (by decide : 5 ≤ depthLimit)
  have hblock := h.isBlock hdescription
  have hnode := h.ofNode?_valueNode hdescription
  rw [Schema.toValue_describe] at hheight hblock hnode
  have hread : Format.yaml.read? (Format.yaml.render (schema.describe description))
      = some (valueNode (.table (schema.describedEntries description))) :=
    read?_write (List.cons_ne_nil _ _) hblock hheight
  rw [valueNode] at hread hnode
  rw [Format.parse, hread]
  exact hnode

end SchemaForge
