import SchemaForge.Proofs.Document.Member
import SchemaForge.Proofs.Document.Numbers

/-!
# `Proofs.Document.Codec` — a schema is recovered from its tree

The codec reads what it writes, for every schema and in both reading modes, when the doubles of the
tree are replaced by what a format makes of them. A member that is left out because it is absent or
off is read as absent or off, and a double that nothing replaces becomes an absent bound.

## Contents
- **Rule records.** The keys of each record and what is read of its entries.
- **Rules.** `Rules.ofNode?_toValue`, by recursion over the rules of elements.
- **Schemas.** `Field.ofNode?_toValue`, `Schema.ofNode?_toValue`.
-/

namespace SchemaForge

open Document

/-! ## Rule records -/

section Records

variable (f : Binary64 → Option Binary64) (mode : Node.Mode)

theorem keys_append {entries more : List (String × Value)} {names names' : List String}
    (h : (entries.map Prod.fst).Sublist names) (h' : (more.map Prod.fst).Sublist names') :
    ((entries ++ more).map Prod.fst).Sublist (names ++ names') := by
  rw [List.map_append]
  exact h.append h'

theorem StringRules.keys_entries (rules : StringRules) :
    (rules.entries.map Prod.fst).Sublist memberNames := by
  show List.Sublist _
    (["min"] ++ ["max"] ++ ["length"] ++ ["email"] ++ ["url"] ++ ["uuid"] ++ ["cuid"] ++ ["regex"]
      ++ ["startsWith"] ++ ["endsWith"] ++ ["includes"] ++ ["trim"] ++ ["toLowerCase"]
      ++ ["toUpperCase"])
  unfold StringRules.entries
  repeat' apply keys_append
  all_goals first | exact keys_optionalEntry _ _ _ | exact keys_flagEntry _ _

theorem StringRules.ofMembers?_entries (rules : StringRules) :
    StringRules.ofMembers? mode (keptMembers f rules.entries) = some rules := by
  simp [StringRules.ofMembers?, StringRules.entries, optional?_eq, flag?_eq, List.lookup_append]

theorem NumberRules.keys_entries (rules : NumberRules) :
    (rules.entries.map Prod.fst).Sublist memberNames := by
  show List.Sublist _
    (["min"] ++ ["max"] ++ ["int"] ++ ["positive"] ++ ["negative"] ++ ["nonpositive"]
      ++ ["nonnegative"] ++ ["multipleOf"] ++ ["finite"])
  unfold NumberRules.entries
  repeat' apply keys_append
  all_goals first | exact keys_optionalEntry _ _ _ | exact keys_flagEntry _ _

theorem NumberRules.ofMembers?_entries (rules : NumberRules) :
    NumberRules.ofMembers? mode (keptMembers f rules.entries) = some (rules.mapFloats f) := by
  simp [NumberRules.ofMembers?, NumberRules.entries, NumberRules.mapFloats, optional?_eq, flag?_eq,
    List.lookup_append]

theorem DateRules.keys_entries (rules : DateRules) :
    (rules.entries.map Prod.fst).Sublist memberNames :=
  keys_append (keys_optionalEntry _ _ _) (keys_optionalEntry _ _ _)

theorem DateRules.ofMembers?_entries (rules : DateRules) :
    DateRules.ofMembers? mode (keptMembers f rules.entries) = some rules := by
  simp [DateRules.ofMembers?, DateRules.entries, optional?_eq, List.lookup_append]

theorem items?_text (texts : List String) :
    Node.items? (Node.text? mode) (Node.ofValue ((Value.list (texts.map .text)).mapFloats f))
      = some texts := by
  rw [Value.mapFloats, Node.ofValue, Node.items?]
  induction texts with
  | nil =>
      rw [List.map_nil, Value.mapItems, Node.ofItems]
      rfl
  | cons text texts ih =>
      have htext : Node.text? mode (.scalar (.text text)) = some text := by cases mode <;> rfl
      rw [List.map_cons, Value.mapItems, Value.mapFloats, Node.ofItems, Node.ofValue,
        List.mapM_cons, htext, ih]
      rfl

theorem EnumRules.keys_entries (rules : EnumRules) :
    (rules.entries.map Prod.fst).Sublist memberNames := List.Sublist.refl _

theorem EnumRules.ofMembers?_entries (rules : EnumRules) :
    EnumRules.ofMembers? mode (keptMembers f rules.entries) = some rules := by
  simp [EnumRules.ofMembers?, EnumRules.entries, Members.withDefault?, items?_text]

theorem ArrayRules.keys_entries (rules : ArrayRules) (item : Option Rules) :
    ((rules.entries ++ optionalEntry "itemValidations" Rules.toValue item).map Prod.fst).Sublist
      memberNames := by
  show List.Sublist _
    (["min"] ++ ["max"] ++ ["length"] ++ ["nonempty"] ++ ["itemType"] ++ ["itemValidations"])
  unfold ArrayRules.entries
  repeat' apply keys_append
  all_goals first
    | exact keys_optionalEntry _ _ _
    | exact keys_flagEntry _ _
    | exact List.Sublist.refl _

theorem Kind.ofNode?_name (kind : Kind) :
    Kind.ofNode? mode (Node.ofValue ((Value.text kind.name).mapFloats f)) = some kind := by
  rw [Value.mapFloats, Node.ofValue]
  cases mode <;> exact Kind.ofName?_name kind

theorem ArrayRules.ofMembers?_entries (rules : ArrayRules) (item : Option Rules) :
    ArrayRules.ofMembers? mode
      (keptMembers f (rules.entries ++ optionalEntry "itemValidations" Rules.toValue item))
      = some rules := by
  simp [ArrayRules.ofMembers?, ArrayRules.entries, Members.withDefault?, optional?_eq, flag?_eq,
    List.lookup_append, Kind.ofNode?_name]

end Records

/-! ## Rules -/

namespace Rules

variable (f : Binary64 → Option Binary64) (mode : Node.Mode)

/-- The entries of a rule record, without its kind. -/
def memberEntries : Rules → List (String × Value)
  | string rules     => rules.entries
  | number rules     => rules.entries
  | boolean          => []
  | date rules       => rules.entries
  | enum rules       => rules.entries
  | array rules item => rules.entries ++ optionalEntry "itemValidations" toValue item

theorem entries_eq (rules : Rules) :
    rules.entries
      = [("type", .text rules.kind.name), ("validations", .table rules.memberEntries)] := by
  cases rules with
  | array rules item =>
      cases item with
      | none =>
          have hentries : memberEntries (.array rules none) = rules.entries := List.append_nil _
          rw [hentries]
          rfl
      | some item => rfl
  | _ => rfl

/-- **A rule record is recovered from its entries**, if the rules of elements are. -/
theorem ofRecord?_memberEntries (readItem : Node → Option Rules) (rules : Rules)
    (hitem : ∀ array item, rules = .array array (some item) →
      Node.optional? mode readItem (Node.ofValue (item.toValue.mapFloats f))
        = some (some (item.mapFloats f))) :
    ofRecord? mode readItem rules.kind
      (Node.ofValue ((Value.table rules.memberEntries).mapFloats f))
      = some (rules.mapFloats f) := by
  cases rules with
  | string rules =>
      simp only [memberEntries, kind, ofRecord?, mapFloats]
      rw [members?_table f mode rules.keys_entries (by decide)]
      simp [StringRules.ofMembers?_entries]
  | number rules =>
      simp only [memberEntries, kind, ofRecord?, mapFloats]
      rw [members?_table f mode rules.keys_entries (by decide)]
      simp [NumberRules.ofMembers?_entries]
  | boolean =>
      simp only [memberEntries, kind, ofRecord?, mapFloats]
      have hkeys : (([] : List (String × Value)).map Prod.fst).Sublist [] := List.Sublist.refl _
      rw [members?_table f mode hkeys List.nodup_nil]
      rfl
  | date rules =>
      simp only [memberEntries, kind, ofRecord?, mapFloats]
      rw [members?_table f mode rules.keys_entries (by decide)]
      simp [DateRules.ofMembers?_entries]
  | enum rules =>
      simp only [memberEntries, kind, ofRecord?, mapFloats]
      rw [members?_table f mode rules.keys_entries (by decide)]
      simp [EnumRules.ofMembers?_entries]
  | array rules item =>
      simp only [memberEntries, kind, ofRecord?]
      rw [members?_table f mode (rules.keys_entries item) (by decide)]
      have hread : optionalOf? mode readItem
          (item.map fun item => Node.ofValue (item.toValue.mapFloats f))
          = some (item.map (mapFloats f)) := by
        cases item with
        | none      => rfl
        | some item => exact hitem rules item rfl
      have hlookup : (keptMembers f
          (rules.entries ++ optionalEntry "itemValidations" toValue item)).lookup "itemValidations"
          = item.map fun item => Node.ofValue (item.toValue.mapFloats f) := by
        simp [ArrayRules.entries, List.lookup_append]
      simp only [ArrayRules.ofMembers?_entries, optional?_eq, hlookup, hread, Option.bind_eq_bind,
        Option.bind_some]
      cases item with
      | none      => rw [Option.map_none, mapFloats]
      | some item => rw [Option.map_some, mapFloats]

theorem ofValue_toValue (rules : Rules) :
    Node.ofValue (rules.toValue.mapFloats f)
      = .table
          [(.scalar (.text "type"), .scalar (.text rules.kind.name)),
            (.scalar (.text "validations"),
              Node.ofValue ((Value.table rules.memberEntries).mapFloats f))] := by
  simp [toValue, entries_eq, Value.mapFloats, Value.mapEntries, Node.ofValue, Node.ofEntries]

/-- The rules of elements are nested deeper than the rules they belong to. -/
theorem height_item_lt (rules : ArrayRules) (item : Rules) :
    (Node.ofValue (item.toValue.mapFloats f)).height
      < (Node.ofValue ((Rules.array rules (some item)).toValue.mapFloats f)).height := by
  have hmem : ("itemValidations", item.toValue) ∈ memberEntries (.array rules (some item)) :=
    List.mem_append_right _ List.mem_cons_self
  have hle := Node.height_le_of_mem f hmem
  rw [ofValue_toValue f (.array rules (some item)), Value.mapFloats, Node.ofValue]
  simp only [Node.height, Node.entriesHeight]
  omega

/-- One level of rules is read, if the rules of elements are. -/
theorem ofNodeWithin?_succ {depth : Nat} (rules : Rules)
    (hitem : ∀ array item, rules = .array array (some item) →
      Node.optional? mode (ofNodeWithin? mode depth) (Node.ofValue (item.toValue.mapFloats f))
        = some (some (item.mapFloats f))) :
    ofNodeWithin? mode (depth + 1) (Node.ofValue (rules.toValue.mapFloats f))
      = some (rules.mapFloats f) := by
  have hmembers : (Node.ofValue (rules.toValue.mapFloats f)).members? mode memberNames
      = some (keptMembers f rules.entries) := by
    refine members?_table f mode ?_ (by decide)
    rw [entries_eq]
    exact List.Sublist.refl _
  rw [ofNodeWithin?, hmembers, entries_eq]
  simp [Members.required?, Kind.ofNode?_name, ofRecord?_memberEntries f mode _ rules hitem]

/-- **Rules are recovered from their node** at every depth that reaches through it. -/
theorem ofNodeWithin?_toValue : (rules : Rules) → ∀ depth,
    (Node.ofValue (rules.toValue.mapFloats f)).height ≤ depth →
    ofNodeWithin? mode (depth + 1) (Node.ofValue (rules.toValue.mapFloats f))
      = some (rules.mapFloats f)
  | .array rules (some item), depth, h => by
      refine ofNodeWithin?_succ f mode _ fun array inner heq => ?_
      cases heq
      -- the rules of the elements stand deeper in the node, so the depth that is left reaches them
      have hlt := height_item_lt f rules item
      obtain ⟨less, rfl⟩ : ∃ less, depth = less + 1 := ⟨depth - 1, by omega⟩
      have hread := ofNodeWithin?_toValue item less (by omega)
      have hnull : Node.isNull mode (Node.ofValue (item.toValue.mapFloats f)) = false := by
        rw [ofValue_toValue]
        cases mode <;> rfl
      rw [Node.optional?, hnull, hread]
      rfl
  | .array _ none, _, _ => ofNodeWithin?_succ f mode _ (by rintro _ _ ⟨⟩)
  | .string _, _, _     => ofNodeWithin?_succ f mode _ (by rintro _ _ ⟨⟩)
  | .number _, _, _     => ofNodeWithin?_succ f mode _ (by rintro _ _ ⟨⟩)
  | .boolean, _, _      => ofNodeWithin?_succ f mode _ (by rintro _ _ ⟨⟩)
  | .date _, _, _       => ofNodeWithin?_succ f mode _ (by rintro _ _ ⟨⟩)
  | .enum _, _, _       => ofNodeWithin?_succ f mode _ (by rintro _ _ ⟨⟩)

theorem ofNode?_toValue (rules : Rules) :
    ofNode? mode (Node.ofValue (rules.toValue.mapFloats f)) = some (rules.mapFloats f) :=
  ofNodeWithin?_toValue f mode rules _ (Nat.le_refl _)

end Rules

/-! ## Fields and schemas -/

section Schemas

variable (f : Binary64 → Option Binary64)

/-- The entries of a field, in the order in which they are written. -/
def Field.entries (field : Field) : List (String × Value) :=
  [("name", .text field.name), ("required", .bool field.required),
      ("nullable", .bool field.nullable)]
    ++ optionalEntry "defaultValue" .text field.defaultValue
    ++ optionalEntry "description" .text field.description
    ++ [("type", .text field.kind.name), ("validations", .table field.rules.memberEntries)]

theorem Field.toValue_eq (field : Field) : field.toValue = .table field.entries := by
  unfold Field.toValue Field.entries Field.kind
  rw [Rules.entries_eq]

theorem Field.keys_entries (field : Field) :
    (field.entries.map Prod.fst).Sublist (Field.directNames ++ Rules.memberNames) := by
  show List.Sublist _
    (["name", "required", "nullable"] ++ ["defaultValue"] ++ ["description"]
      ++ ["type", "validations"])
  exact keys_append (keys_append (keys_append (List.Sublist.refl _) (keys_optionalEntry _ _ _))
    (keys_optionalEntry _ _ _)) (List.Sublist.refl _)

/-- Nothing in a written field is without a meaning. -/
theorem Field.restReadable_ofEntries (entries : List (String × Value)) :
    Field.restReadable (Node.ofEntries entries) = true := by
  induction entries with
  | nil =>
      rw [Node.ofEntries]
      rfl
  | cons entry entries ih =>
      obtain ⟨key, value⟩ := entry
      unfold Field.restReadable at ih ⊢
      rw [Node.ofEntries_cons, List.all_cons, ih, Bool.and_true]
      dsimp only [Node.text?, Node.meaning?]
      rw [Node.isReadable_ofValue, Bool.or_true]

/-- **A field is recovered from its node.** -/
theorem Field.ofNode?_toValue (field : Field) :
    Field.ofNode? (Node.ofValue (field.toValue.mapFloats f)) = some (field.mapFloats f) := by
  have hmembers : Node.namedMembers? .direct (Field.directNames ++ Rules.memberNames)
      (Node.ofEntries (Value.mapEntries f field.entries)) = some (keptMembers f field.entries) := by
    refine namedMembers?_ofEntries .direct ?_ (by decide)
    rw [keys_mapEntries]
    exact field.keys_entries
  have hrules := Rules.ofRecord?_memberEntries f .buffered (Rules.ofNode? .buffered) field.rules (by
      intro array item _
      have hnull : Node.isNull .buffered (Node.ofValue (item.toValue.mapFloats f)) = false := by
        rw [Rules.ofValue_toValue]
        rfl
      rw [Node.optional?, hnull, Rules.ofNode?_toValue]
      rfl)
  rw [Field.toValue_eq, Value.mapFloats, Node.ofValue, Field.ofNode?, hmembers]
  simp [Members.required?, Field.entries, List.lookup_append, Field.restReadable_ofEntries,
    optional?_eq, Kind.ofNode?_name, Field.kind, hrules, Field.mapFloats]

/-- The entries of a schema, in the order in which they are written. -/
def Schema.entries (schema : Schema) : List (String × Value) :=
  [("name", .text schema.name)]
    ++ optionalEntry "description" .text schema.description
    ++ [("fields", .list (schema.fields.map Field.toValue))]

theorem Schema.keys_entries (schema : Schema) :
    (schema.entries.map Prod.fst).Sublist ["name", "description", "fields"] := by
  show List.Sublist _ (["name"] ++ ["description"] ++ ["fields"])
  exact keys_append (keys_append (List.Sublist.refl _) (keys_optionalEntry _ _ _))
    (List.Sublist.refl _)

theorem Schema.fieldsOfNode?_list (fields : List Field) :
    Schema.fieldsOfNode? (Node.ofValue ((Value.list (fields.map Field.toValue)).mapFloats f))
      = some (fields.map (Field.mapFloats f)) := by
  rw [Value.mapFloats, Node.ofValue]
  show List.mapM Field.ofNode? _ = _
  induction fields with
  | nil =>
      rw [List.map_nil, Value.mapItems, Node.ofItems]
      rfl
  | cons field fields ih =>
      rw [List.map_cons, Value.mapItems, Node.ofItems, List.mapM_cons, Field.ofNode?_toValue, ih]
      rfl

/-- **A schema is recovered from its node.** -/
theorem Schema.ofNode?_toValue (schema : Schema) :
    Schema.ofNode? (Node.ofValue (schema.toValue.mapFloats f)) = some (schema.mapFloats f) := by
  have hmembers := members?_table f .direct schema.keys_entries (by decide)
  have hvalue : schema.toValue = .table schema.entries := rfl
  rw [hvalue, Schema.ofNode?, hmembers]
  simp [Members.required?, Members.withDefault?, Schema.entries, List.lookup_append, optional?_eq,
    Schema.fieldsOfNode?_list, Schema.mapFloats]

/-- A schema is recovered from its node as it is, if all doubles are kept. -/
theorem Schema.ofNode?_ofValue (schema : Schema) :
    Schema.ofNode? (Node.ofValue schema.toValue) = some schema := by
  have hread := Schema.ofNode?_toValue some schema
  rwa [Value.mapFloats_some, Schema.mapFloats_eq_self fun _ _ => rfl] at hread

end Schemas
end SchemaForge
