import SchemaForge.Document.Node

/-!
# `Proofs.Document.Value` — what a format can hold of a tree

A format need not be able to hold every double, nor every integer. `Value.mapFloats` is the tree
that is left when each double is replaced by what the format makes of it, or by null; `Value.intsIn`
says that every integer of a tree has a property.

## Contents
- **Doubles.** `Value.mapFloats`, `mapEntries_append` and `mapFloats_some`.
- **Integers.** `Value.intsIn`, and `itemsIn_eq_all` and `entriesIn_eq_all`.
-/

namespace SchemaForge.Document.Value

variable (f : Binary64 → Option Binary64)

/-! ## Doubles -/

mutual

/-- The same tree with every double replaced, or null where nothing replaces it. -/
def mapFloats : Value → Value
  | null          => null
  | bool value    => bool value
  | int value     => int value
  | float value   =>
    match f value with
    | some kept => float kept
    | none      => null
  | text value    => text value
  | list items    => list (mapItems items)
  | table entries => table (mapEntries entries)

def mapItems : List Value → List Value
  | []            => []
  | item :: items => item.mapFloats :: mapItems items

def mapEntries : List (String × Value) → List (String × Value)
  | []                      => []
  | (key, value) :: entries => (key, value.mapFloats) :: mapEntries entries

end

theorem mapEntries_eq_map (entries : List (String × Value)) :
    mapEntries f entries = entries.map fun entry => (entry.1, entry.2.mapFloats f) := by
  induction entries with
  | nil => rw [mapEntries, List.map_nil]
  | cons entry entries ih => rw [mapEntries, ih, List.map_cons]

theorem mapEntries_append (entries more : List (String × Value)) :
    mapEntries f (entries ++ more) = mapEntries f entries ++ mapEntries f more := by
  rw [mapEntries_eq_map, mapEntries_eq_map, mapEntries_eq_map, List.map_append]

mutual

/-- A tree stays as it is if every double is kept. -/
theorem mapFloats_some : (value : Value) → value.mapFloats some = value
  | null          => by rw [mapFloats]
  | bool _        => by rw [mapFloats]
  | int _         => by rw [mapFloats]
  | float _       => by rw [mapFloats]
  | text _        => by rw [mapFloats]
  | list items    => by rw [mapFloats, mapItems_some items]
  | table entries => by rw [mapFloats, mapEntries_some entries]

theorem mapItems_some : (items : List Value) → mapItems some items = items
  | []            => by rw [mapItems]
  | item :: items => by rw [mapItems, mapFloats_some item, mapItems_some items]

theorem mapEntries_some : (entries : List (String × Value)) → mapEntries some entries = entries
  | []                      => by rw [mapEntries]
  | (key, value) :: entries => by rw [mapEntries, mapFloats_some value, mapEntries_some entries]

end

/-! ## Integers -/

variable (p : Int → Bool)

mutual

/-- Whether every integer of a tree has a property. -/
def intsIn : Value → Bool
  | int value     => p value
  | list items    => itemsIn items
  | table entries => entriesIn entries
  | _             => true

def itemsIn : List Value → Bool
  | []            => true
  | item :: items => item.intsIn && itemsIn items

def entriesIn : List (String × Value) → Bool
  | []                  => true
  | (_, value) :: entries => value.intsIn && entriesIn entries

end

theorem itemsIn_eq_all (items : List Value) : itemsIn p items = items.all (intsIn p) := by
  induction items with
  | nil => rw [itemsIn, List.all_nil]
  | cons item items ih => rw [itemsIn, ih, List.all_cons]

theorem entriesIn_eq_all (entries : List (String × Value)) :
    entriesIn p entries = entries.all fun entry => entry.2.intsIn p := by
  induction entries with
  | nil => rw [entriesIn, List.all_nil]
  | cons entry entries ih => rw [entriesIn, ih, List.all_cons]

theorem entriesIn_append (entries more : List (String × Value)) :
    entriesIn p (entries ++ more) = (entriesIn p entries && entriesIn p more) := by
  rw [entriesIn_eq_all, entriesIn_eq_all, entriesIn_eq_all, List.all_append]

end SchemaForge.Document.Value
