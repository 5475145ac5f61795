import SchemaForge.Document.Format
import SchemaForge.Proofs.Document.Codec
import SchemaForge.Proofs.Import.Produced
import SchemaForge.Proofs.Json.RoundTrip

/-!
# `Proofs.Import.Document` — the tree of an imported schema

The tree of an imported schema is small: its rule records are empty, or hold the kind of the elements
of a collection, or a list of literals. So it is nested five deep at most and holds no number, which
is all that the round trip through a JSON text asks for.

## Contents
- **Rules.** `Rules.memberEntries_empty`, and what the other imported records hold.
- **Sizes.** `Schema.IsProduced.height_le` and `Schema.IsProduced.floats_eq`.
- **Reading.** `Schema.IsProduced.parse_json`.
-/

namespace SchemaForge

open Document

variable {source : List Char}

/-! ## Rule records -/

/-- The record of a primitive kind that asks nothing has no entries. -/
theorem Rules.memberEntries_empty {kind : Kind} (h : kind.isPrimitive = true) :
    (Rules.empty kind).memberEntries = [] := by
  cases kind with
  | string => rfl
  | number => rfl
  | boolean => rfl
  | date => rfl
  | enum => exact nomatch h
  | array => exact nomatch h

theorem Rules.memberEntries_arrayOf (kind : Kind) :
    (Rules.arrayOf kind).memberEntries = [("itemType", .text kind.name)] := rfl

theorem Rules.memberEntries_oneOf (values : List String) :
    (Rules.oneOf values).memberEntries = [("values", .list (values.map .text))] := rfl

/-- Imported rules hold no doubles. -/
theorem Rules.IsProduced.floats_eq {rules : Rules} (h : rules.IsProduced source) :
    rules.floats = [] := by
  cases h with
  | @keyword kind hprimitive => cases kind <;> rfl
  | collection => rfl
  | literals => rfl

/-! ## Sizes -/

theorem itemsHeight_le {height : Nat} {items : List Value}
    (h : ∀ item ∈ items, (Node.ofValue item).height ≤ height) :
    Node.itemsHeight (Node.ofItems items) ≤ height := by
  induction items with
  | nil => exact Nat.zero_le height
  | cons item items ih =>
      rw [Node.ofItems, Node.itemsHeight]
      exact max_le (h item List.mem_cons_self) (ih fun i hi => h i (List.mem_cons_of_mem item hi))

theorem entriesHeight_le {height : Nat} {entries : List (String × Value)}
    (h : ∀ entry ∈ entries, (Node.ofValue entry.2).height ≤ height) :
    Node.entriesHeight (Node.ofEntries entries) ≤ height := by
  induction entries with
  | nil => exact Nat.zero_le height
  | cons entry entries ih =>
      obtain ⟨key, value⟩ := entry
      rw [Node.ofEntries, Node.entriesHeight]
      exact max_le (max_le (Nat.zero_le height) (h (key, value) List.mem_cons_self))
        (ih fun e he => h e (List.mem_cons_of_mem _ he))

theorem Rules.IsProduced.height_le {rules : Rules} (h : rules.IsProduced source) :
    (Node.ofValue (.table rules.memberEntries)).height ≤ 2 := by
  rw [Node.ofValue, Node.height]
  refine Nat.succ_le_succ (entriesHeight_le ?_)
  cases h with
  | keyword hprimitive =>
      rw [Rules.memberEntries_empty hprimitive]
      exact fun _ hentry => nomatch hentry
  | collection =>
      rw [Rules.memberEntries_arrayOf]
      exact List.forall_mem_singleton.mpr (Nat.zero_le 1)
  | literals =>
      rw [Rules.memberEntries_oneOf]
      refine List.forall_mem_singleton.mpr ?_
      rw [Node.ofValue, Node.height]
      refine Nat.succ_le_succ (itemsHeight_le fun item hitem => ?_)
      obtain ⟨value, -, rfl⟩ := List.mem_map.mp hitem
      exact Nat.le_refl 0

/-- The entries of a field that are no rules are scalars. -/
theorem Field.IsProduced.height_le {field : Field} (h : field.IsProduced source) :
    (Node.ofValue field.toValue).height ≤ 3 := by
  rw [Field.toValue_eq, Node.ofValue, Node.height]
  refine Nat.succ_le_succ (entriesHeight_le fun entry hentry => ?_)
  rw [Field.entries, h.defaultValue] at hentry
  cases hdescription : field.description <;>
    simp only [hdescription, optionalEntry, List.append_nil, List.cons_append, List.nil_append,
      List.mem_cons, List.not_mem_nil, or_false] at hentry
  · rcases hentry with rfl | rfl | rfl | rfl | rfl
    case inr.inr.inr.inr => exact h.rules.height_le
    all_goals exact Nat.zero_le 2
  · rcases hentry with rfl | rfl | rfl | rfl | rfl | rfl
    case inr.inr.inr.inr.inr => exact h.rules.height_le
    all_goals exact Nat.zero_le 2

/-- **An imported schema with a description is nested five deep at most.** -/
theorem Schema.IsProduced.height_le {schema : Schema} (h : schema.IsProduced source)
    (description : String) : (Node.ofValue (schema.describe description).toValue).height ≤ 5 := by
  have hvalue : (schema.describe description).toValue
      = .table [("name", .text schema.name), ("description", .text description),
          ("fields", .list (schema.fields.map Field.toValue))] := rfl
  rw [hvalue, Node.ofValue, Node.height]
  refine Nat.succ_le_succ (entriesHeight_le fun entry hentry => ?_)
  simp only [List.mem_cons, List.not_mem_nil, or_false] at hentry
  rcases hentry with rfl | rfl | rfl
  · exact Nat.zero_le 4
  · exact Nat.zero_le 4
  · rw [Node.ofValue, Node.height]
    refine Nat.succ_le_succ (itemsHeight_le fun item hitem => ?_)
    obtain ⟨field, hfield, rfl⟩ := List.mem_map.mp hitem
    exact (h.fields field hfield).height_le

/-- **An imported schema holds no doubles.** -/
theorem Schema.IsProduced.floats_eq {schema : Schema} (h : schema.IsProduced source) :
    schema.floats = [] := by
  rw [Schema.floats, List.flatMap_eq_nil_iff]
  exact fun field hfield => (h.fields field hfield).rules.floats_eq

/-! ## JSON documents -/

/-- **An imported schema is read back from its JSON text**, also with white space after it. -/
theorem Schema.IsProduced.parse_json {schema : Schema} (h : schema.IsProduced source)
    (description : String) {blanks : List Char} (hblanks : ∀ c ∈ blanks, Json.isBlank c = true) :
    Format.json.parse (Format.json.render (schema.describe description) ++ String.ofList blanks)
      = some (schema.describe description) := by
  have hdepth : (Node.ofValue (schema.describe description).toValue).height ≤ Json.depthLimit :=
    (h.height_le description).trans (by decide)
  have hkept : (schema.describe description).mapFloats Json.finite? = schema.describe description := by
    refine Schema.mapFloats_eq_self fun x hx => ?_
    have hnone : (schema.describe description).floats = [] := h.floats_eq
    rw [hnone] at hx
    exact nomatch hx
  have hread := Json.read?_write_append
    ((schema.describe description).intsIn_toValue Json.fitsInteger_count) hdepth hblanks
  have hparse : Format.json.parse
      (Format.json.render (schema.describe description) ++ String.ofList blanks)
        = (Json.read? (Json.write (schema.describe description).toValue
            ++ String.ofList blanks)).bind fun node => Schema.ofNode? node := rfl
  rw [hparse, hread, Option.bind_some, Schema.ofNode?_toValue, hkept]

end SchemaForge
