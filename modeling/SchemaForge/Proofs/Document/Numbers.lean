import SchemaForge.Document.Codec
import SchemaForge.Proofs.Document.Value

/-!
# `Proofs.Document.Numbers` — the numbers of a schema

A schema holds doubles as the bounds of numbers, at any depth of element rules, and integers only as
counts below `2 ^ 32`.

## Contents
- **Doubles.** `Schema.mapFloats` replaces them, `Schema.floats` lists them, and
  `Schema.mapFloats_eq_self` says when nothing changes.
- **Integers.** `Schema.intsIn_toValue`, by recursion over the rules of elements.
-/

namespace SchemaForge

open Document

/-! ## Schemas with other doubles -/

section MapFloats

variable (f : Binary64 → Option Binary64)

def NumberRules.mapFloats (rules : NumberRules) : NumberRules :=
  { rules with
    min := rules.min.bind f
    max := rules.max.bind f
    multipleOf := rules.multipleOf.bind f }

/-- The same rules with every double replaced, and no bound where nothing replaces it. -/
def Rules.mapFloats : Rules → Rules
  | string rules            => string rules
  | number rules            => number (rules.mapFloats f)
  | boolean                 => boolean
  | date rules              => date rules
  | enum rules              => enum rules
  | array rules none        => array rules none
  | array rules (some item) => array rules (some item.mapFloats)

def Field.mapFloats (field : Field) : Field := { field with rules := field.rules.mapFloats f }

def Schema.mapFloats (schema : Schema) : Schema :=
  { schema with fields := schema.fields.map (Field.mapFloats f) }

end MapFloats

/-! ## Schemas whose doubles are kept -/

/-- The doubles of a rule record. -/
def NumberRules.floats (rules : NumberRules) : List Binary64 :=
  rules.min.toList ++ rules.max.toList ++ rules.multipleOf.toList

/-- The doubles of rules, those of the rules of elements included. -/
def Rules.floats : Rules → List Binary64
  | number rules        => rules.floats
  | array _ (some item) => item.floats
  | _                   => []

/-- The doubles of a schema. -/
def Schema.floats (schema : Schema) : List Binary64 :=
  schema.fields.flatMap fun field => field.rules.floats

section Kept

variable {f : Binary64 → Option Binary64}

theorem bind_eq_self {value : Option Binary64} (h : ∀ x ∈ value.toList, f x = some x) :
    value.bind f = value := by
  cases value with
  | none   => rfl
  | some x => exact h x (by simp)

theorem NumberRules.mapFloats_eq_self {rules : NumberRules}
    (h : ∀ x ∈ rules.floats, f x = some x) : rules.mapFloats f = rules := by
  unfold NumberRules.floats at h
  unfold NumberRules.mapFloats
  rw [bind_eq_self fun x hx => h x (by simp_all), bind_eq_self fun x hx => h x (by simp_all),
    bind_eq_self fun x hx => h x (by simp_all)]

theorem Rules.mapFloats_eq_self : (rules : Rules) → (∀ x ∈ rules.floats, f x = some x) →
    rules.mapFloats f = rules
  | number rules, h => by
      rw [mapFloats, NumberRules.mapFloats_eq_self fun x hx => h x (by rwa [floats])]
  | array rules (some item), h => by
      rw [mapFloats, mapFloats_eq_self item fun x hx => h x (by rwa [floats])]
  | array _ none, _ => by rw [mapFloats]
  | string _, _     => by rw [mapFloats]
  | boolean, _      => by rw [mapFloats]
  | date _, _       => by rw [mapFloats]
  | enum _, _       => by rw [mapFloats]

/-- A schema whose doubles are all kept stays the same. -/
theorem Schema.mapFloats_eq_self {schema : Schema} (h : ∀ x ∈ schema.floats, f x = some x) :
    schema.mapFloats f = schema := by
  have hfields : schema.fields.map (Field.mapFloats f) = schema.fields := by
    refine (List.map_congr_left fun field hfield => ?_).trans (List.map_id _)
    unfold Field.mapFloats
    rw [field.rules.mapFloats_eq_self fun x hx => h x (List.mem_flatMap.mpr ⟨field, hfield, hx⟩)]
    rfl
  unfold Schema.mapFloats
  rw [hfields]

end Kept
/-! ## The integers of a schema -/

section Integers

variable {p : Int → Bool} (hp : ∀ n : UInt32, p n.toNat = true)

theorem entriesIn_optionalEntry {α : Type} {write : α → Value} (name : String)
    (h : ∀ x, (write x).intsIn p = true) (value : Option α) :
    Value.entriesIn p (optionalEntry name write value) = true := by
  cases value with
  | none => rw [optionalEntry, Value.entriesIn]
  | some x =>
      rw [optionalEntry, Value.entriesIn, h, Value.entriesIn]
      rfl

theorem entriesIn_text (name : String) (value : Option String) :
    Value.entriesIn p (optionalEntry name .text value) = true :=
  entriesIn_optionalEntry name (fun text => by rw [Value.intsIn] <;> rintro _ ⟨⟩) value

theorem entriesIn_float (name : String) (value : Option Binary64) :
    Value.entriesIn p (optionalEntry name .float value) = true :=
  entriesIn_optionalEntry name (fun x => by rw [Value.intsIn] <;> rintro _ ⟨⟩) value

theorem entriesIn_flag (name : String) (isSet : Bool) :
    Value.entriesIn p (flagEntry name isSet) = true := by
  cases isSet with
  | false =>
      rw [flagEntry, if_neg Bool.false_ne_true, Value.entriesIn]
  | true =>
      simp [flagEntry, Value.entriesIn, Value.intsIn]

theorem itemsIn_texts (texts : List String) : Value.itemsIn p (texts.map .text) = true := by
  rw [Value.itemsIn_eq_all, List.all_map, List.all_eq_true]
  intro text _
  rw [Function.comp_apply, Value.intsIn] <;> rintro _ ⟨⟩

include hp

theorem entriesIn_count (name : String) (value : Option UInt32) :
    Value.entriesIn p (optionalEntry name countValue value) = true := by
  refine entriesIn_optionalEntry name (fun n => ?_) value
  rw [countValue, Value.intsIn]
  exact hp n

/-- The integers of a rule record are counts. -/
theorem Rules.entriesIn_entries : (rules : Rules) → Value.entriesIn p rules.entries = true
  | .string rules => by
      simp [entries, entries.tagged, StringRules.entries, Value.entriesIn_append, Value.entriesIn,
        Value.intsIn, entriesIn_count hp, entriesIn_flag, entriesIn_text]
  | .number rules => by
      simp [entries, entries.tagged, NumberRules.entries, Value.entriesIn_append, Value.entriesIn,
        Value.intsIn, entriesIn_flag, entriesIn_float]
  | .boolean => by simp [entries, entries.tagged, Value.entriesIn, Value.intsIn]
  | .date rules => by
      simp [entries, entries.tagged, DateRules.entries, Value.entriesIn_append, Value.entriesIn,
        Value.intsIn, entriesIn_text]
  | .enum rules => by
      simp [entries, entries.tagged, EnumRules.entries, Value.entriesIn, Value.intsIn, itemsIn_texts]
  | .array rules none => by
      simp [entries, entries.tagged, ArrayRules.entries, Value.entriesIn_append, Value.entriesIn,
        Value.intsIn, entriesIn_count hp, entriesIn_flag]
  | .array rules (some item) => by
      simp [entries, entries.tagged, ArrayRules.entries, Value.entriesIn_append, Value.entriesIn,
        Value.intsIn, entriesIn_count hp, entriesIn_flag, Rules.entriesIn_entries item]

/-- **The integers of a schema are counts.** -/
theorem Schema.intsIn_toValue (schema : Schema) : schema.toValue.intsIn p = true := by
  have hfields : Value.itemsIn p (schema.fields.map Field.toValue) = true := by
    rw [Value.itemsIn_eq_all, List.all_map, List.all_eq_true]
    intro field _
    simp [Field.toValue, Value.intsIn, Value.entriesIn_append, Value.entriesIn, entriesIn_text,
      Rules.entriesIn_entries hp]
  simp [Schema.toValue, Value.intsIn, Value.entriesIn_append, Value.entriesIn, entriesIn_text,
    hfields]

end Integers

end SchemaForge
