import SchemaForge.Document.Codec
import SchemaForge.Proofs.Document.Value

/-!
# `Proofs.Document.Member` — the members of a written table

A table whose keys are known and differ has exactly its entries as members, in either reading mode.
What is read of a member then depends on its own entry: the lemmas about entries are simplification
rules, so that a record with many members is read by simplification.

## Contents
- **Nodes of trees.** `height_le_entriesHeight`, `height_le_of_mem` and `isReadable_ofValue`.
- **Members.** `namedMembers?_ofEntries`, `members?_table`.
- **Entries.** Lookups in entries that may be left out.
- **Reading.** `optionalOf?` and `flagOf?`, what is read of an entry.
-/

namespace SchemaForge

open Document

/-! ## Nodes of trees -/

namespace Document.Node

theorem ofEntries_cons (key : String) (value : Value) (entries : List (String × Value)) :
    ofEntries ((key, value) :: entries)
      = (.scalar (.text key), ofValue value) :: ofEntries entries := by
  rw [ofEntries]

theorem ofEntries_eq_map (entries : List (String × Value)) :
    ofEntries entries = entries.map fun entry => (.scalar (.text entry.1), ofValue entry.2) := by
  induction entries with
  | nil => rw [ofEntries, List.map_nil]
  | cons entry entries ih => rw [ofEntries_cons, ih, List.map_cons]

theorem ofEntries_append (entries more : List (String × Value)) :
    ofEntries (entries ++ more) = ofEntries entries ++ ofEntries more := by
  rw [ofEntries_eq_map, ofEntries_eq_map, ofEntries_eq_map, List.map_append]

theorem ofItems_eq_map (items : List Value) : ofItems items = items.map ofValue := by
  induction items with
  | nil => rw [ofItems, List.map_nil]
  | cons item items ih => rw [ofItems, ih, List.map_cons]

theorem height_le_entriesHeight {key value : Node} {entries : List (Node × Node)}
    (h : (key, value) ∈ entries) : value.height ≤ entriesHeight entries := by
  induction entries with
  | nil => exact absurd h List.not_mem_nil
  | cons entry entries ih =>
      obtain ⟨key', value'⟩ := entry
      rw [entriesHeight]
      rcases List.mem_cons.mp h with heq | hmem
      · rw [(Prod.mk.inj heq).2]
        omega
      · have := ih hmem
        omega

theorem height_le_itemsHeight {item : Node} {items : List Node} (h : item ∈ items) :
    item.height ≤ itemsHeight items := by
  induction items with
  | nil => exact absurd h List.not_mem_nil
  | cons first items ih =>
      rw [itemsHeight]
      rcases List.mem_cons.mp h with rfl | hmem
      · omega
      · have := ih hmem
        omega

/-- An entry of a table is nested no deeper than the table allows. -/
theorem height_le_of_mem (f : Binary64 → Option Binary64) {key : String} {value : Value}
    {entries : List (String × Value)} (h : (key, value) ∈ entries) :
    (ofValue (value.mapFloats f)).height
      ≤ entriesHeight (ofEntries (Value.mapEntries f entries)) := by
  rw [ofEntries_eq_map, Value.mapEntries_eq_map, List.map_map]
  exact height_le_entriesHeight (List.mem_map_of_mem h)

mutual

/-- Every scalar of a tree has a meaning. -/
theorem isReadable_ofValue : (value : Value) → (ofValue value).isReadable = true
  | .null          => by rw [ofValue]; rfl
  | .bool _        => by rw [ofValue]; rfl
  | .int _         => by rw [ofValue]; rfl
  | .float _       => by rw [ofValue]; rfl
  | .text _        => by rw [ofValue]; rfl
  | .list items    => by
      rw [ofValue, isReadable]
      exact itemsReadable_ofItems items
  | .table entries => by
      rw [ofValue, isReadable]
      exact entriesReadable_ofEntries entries

theorem itemsReadable_ofItems : (items : List Value) → itemsReadable (ofItems items) = true
  | []            => by rw [ofItems, itemsReadable]
  | item :: items => by
      rw [ofItems, itemsReadable, isReadable_ofValue item, itemsReadable_ofItems items]
      rfl

theorem entriesReadable_ofEntries : (entries : List (String × Value)) →
    entriesReadable (ofEntries entries) = true
  | []                      => by rw [ofEntries, entriesReadable]
  | (key, value) :: entries => by
      rw [ofEntries, entriesReadable, isReadable_ofValue value, entriesReadable_ofEntries entries]
      rfl

end

end Document.Node

/-! ## Members of a record -/

/-- The members that the entries of a table give. -/
def membersOf (entries : List (String × Value)) : Members :=
  entries.map fun (key, value) => (key, Node.ofValue value)

theorem membersOf_append (entries more : List (String × Value)) :
    membersOf (entries ++ more) = membersOf entries ++ membersOf more := List.map_append

theorem keyName?_text (mode : Node.Mode) {names : List String} {name : String}
    (h : name ∈ names) : Node.keyName? mode names (.scalar (.text name)) = some (some name) := by
  have hcontains : names.contains name = true := List.contains_iff_mem.mpr h
  cases mode <;> (unfold Node.keyName?; dsimp only [Node.text?, Node.meaning?]; rw [hcontains]; rfl)

theorem lookup_map_eq_none (node : Value → Node) {name : String} {entries : List (String × Value)}
    (h : name ∉ entries.map Prod.fst) :
    List.lookup name (entries.map fun entry => (entry.1, node entry.2)) = none := by
  rw [List.lookup_eq_none_iff, List.forall_mem_map]
  exact fun entry hentry => bne_iff_ne.mpr fun he => h (he ▸ List.mem_map_of_mem hentry)

/-- **A table whose keys are read as known names that differ has exactly its entries as members.** -/
theorem namedMembers?_map (mode : Node.Mode) {names : List String} (key : String → Node)
    (node : Value → Node) {entries : List (String × Value)}
    (hkey : ∀ entry ∈ entries, Node.keyName? mode names (key entry.1) = some (some entry.1))
    (hkeys : (entries.map Prod.fst).Nodup) :
    Node.namedMembers? mode names (entries.map fun entry => (key entry.1, node entry.2))
      = some (entries.map fun entry => (entry.1, node entry.2)) := by
  induction entries with
  | nil => rfl
  | cons entry entries ih =>
      rw [List.map_cons, List.nodup_cons] at hkeys
      have htail := ih (fun entry h => hkey entry (List.mem_cons_of_mem _ h)) hkeys.2
      rw [List.map_cons, Node.namedMembers?, hkey entry List.mem_cons_self, htail]
      dsimp only [bind, Option.bind]
      rw [lookup_map_eq_none node hkeys.1]
      rfl

/-- **A table with known keys that differ has exactly its entries as members.** -/
theorem namedMembers?_ofEntries (mode : Node.Mode) {names : List String}
    {entries : List (String × Value)} (hsublist : (entries.map Prod.fst).Sublist names)
    (hnodup : names.Nodup) :
    Node.namedMembers? mode names (Node.ofEntries entries) = some (membersOf entries) := by
  rw [Node.ofEntries_eq_map]
  exact namedMembers?_map mode (fun key => .scalar (.text key)) Node.ofValue
    (fun entry hentry => keyName?_text mode (hsublist.subset (List.mem_map_of_mem hentry)))
    (hsublist.nodup hnodup)

/-! ## Single members -/

section Members

variable (f : Binary64 → Option Binary64) {α : Type}

/-- The members of a table whose doubles are replaced. -/
def keptMembers (entries : List (String × Value)) : Members :=
  membersOf (Value.mapEntries f entries)

@[simp] theorem keptMembers_append (entries more : List (String × Value)) :
    keptMembers f (entries ++ more) = keptMembers f entries ++ keptMembers f more := by
  unfold keptMembers
  rw [Value.mapEntries_append, membersOf_append]

@[simp] theorem keptMembers_nil : keptMembers f [] = [] := by
  unfold keptMembers
  rw [Value.mapEntries]
  rfl

@[simp] theorem keptMembers_cons (key : String) (value : Value) (entries : List (String × Value)) :
    keptMembers f ((key, value) :: entries)
      = (key, Node.ofValue (value.mapFloats f)) :: keptMembers f entries := by
  unfold keptMembers
  rw [Value.mapEntries]
  rfl

theorem keptMembers_optionalEntry (name : String) (write : α → Value) (value : Option α) :
    keptMembers f (optionalEntry name write value)
      = (value.map fun x => (name, Node.ofValue ((write x).mapFloats f))).toList := by
  cases value <;> simp [optionalEntry]

theorem keptMembers_flagEntry (name : String) (isSet : Bool) :
    keptMembers f (flagEntry name isSet)
      = if isSet then [(name, .scalar (.bool true))] else [] := by
  cases isSet <;> simp [flagEntry, Value.mapFloats, Node.ofValue]

@[simp] theorem lookup_cons_of_ne {key name : String} (h : key ≠ name) (node : Node)
    (members : Members) : List.lookup key ((name, node) :: members) = members.lookup key := by
  rw [List.lookup_cons, beq_false_of_ne h]

@[simp] theorem lookup_optionalEntry (name : String) (write : α → Value) (value : Option α) :
    (keptMembers f (optionalEntry name write value)).lookup name
      = value.map fun x => Node.ofValue ((write x).mapFloats f) := by
  rw [keptMembers_optionalEntry]
  cases value <;> simp

@[simp] theorem lookup_optionalEntry_of_ne {key name : String} (h : key ≠ name) (write : α → Value)
    (value : Option α) : (keptMembers f (optionalEntry name write value)).lookup key = none := by
  rw [keptMembers_optionalEntry]
  cases value <;> simp [h]

@[simp] theorem lookup_flagEntry (name : String) (isSet : Bool) :
    (keptMembers f (flagEntry name isSet)).lookup name
      = if isSet then some (.scalar (.bool true)) else none := by
  rw [keptMembers_flagEntry]
  cases isSet <;> simp

@[simp] theorem lookup_flagEntry_of_ne {key name : String} (h : key ≠ name) (isSet : Bool) :
    (keptMembers f (flagEntry name isSet)).lookup key = none := by
  rw [keptMembers_flagEntry]
  cases isSet <;> simp [h]

theorem keys_optionalEntry (name : String) (write : α → Value) (value : Option α) :
    ((optionalEntry name write value).map Prod.fst).Sublist [name] := by
  cases value <;> simp [optionalEntry]

theorem keys_flagEntry (name : String) (isSet : Bool) :
    ((flagEntry name isSet).map Prod.fst).Sublist [name] := by
  cases isSet <;> simp [flagEntry]

theorem keys_mapEntries (entries : List (String × Value)) :
    (Value.mapEntries f entries).map Prod.fst = entries.map Prod.fst := by
  rw [Value.mapEntries_eq_map, List.map_map]
  rfl

/-- The members of a table with known keys, in either reading mode. -/
theorem members?_table (mode : Node.Mode) {names : List String} {entries : List (String × Value)}
    (hsublist : (entries.map Prod.fst).Sublist names) (hnodup : names.Nodup) :
    (Node.ofValue ((Value.table entries).mapFloats f)).members? mode names
      = some (keptMembers f entries) := by
  rw [Value.mapFloats, Node.ofValue]
  exact namedMembers?_ofEntries mode (by rwa [keys_mapEntries]) hnodup

/-! ## Reading single members

What is read of a member depends on its entry alone. -/

variable (members : Members) (mode : Node.Mode) (name : String)

/-- What is read of a member that may be missing or null. -/
def optionalOf? (read : Node → Option α) : Option Node → Option (Option α)
  | some node => Node.optional? mode read node
  | none      => some none

/-- What is read of a flag. -/
def flagOf? : Option Node → Option Bool
  | some node => node.bool? mode
  | none      => some false

theorem optional?_eq (read : Node → Option α) :
    members.optional? mode name read = optionalOf? mode read (members.lookup name) := by
  unfold Members.optional? Members.withDefault?
  cases members.lookup name <;> rfl

theorem flag?_eq : members.flag? mode name = flagOf? mode (members.lookup name) := by
  unfold Members.flag? Members.withDefault?
  cases members.lookup name <;> rfl

@[simp] theorem text?_ofValue (text : String) :
    Node.text? mode (Node.ofValue ((Value.text text).mapFloats f)) = some text := by
  rw [Value.mapFloats, Node.ofValue]
  cases mode <;> rfl

@[simp] theorem bool?_ofValue (value : Bool) :
    Node.bool? mode (Node.ofValue ((Value.bool value).mapFloats f)) = some value := by
  rw [Value.mapFloats, Node.ofValue]
  cases mode <;> rfl

theorem countOfInt?_toNat (n : UInt32) : Node.countOfInt? n.toNat = some n := by
  have hlt : n.toNat < 4294967296 := n.toNat_lt
  have hholds : Width.holdsUnsigned 32 n.toNat = true := by
    unfold Width.holdsUnsigned
    rw [Bool.and_eq_true, decide_eq_true_eq, decide_eq_true_eq]
    exact ⟨Int.natCast_nonneg _, Int.ofNat_lt.mpr hlt⟩
  unfold Node.countOfInt?
  rw [if_pos hholds, Int.toNat_natCast, UInt32.ofNat_toNat]

/-- **A member that may be absent is read from its entry**, if its value is. -/
theorem optionalOf?_map {β : Type} {write : α → Value} {read : Node → Option β}
    (result : α → Option β)
    (hread : ∀ x, Node.optional? mode read (Node.ofValue ((write x).mapFloats f))
      = some (result x)) (value : Option α) :
    optionalOf? mode read (value.map fun x => Node.ofValue ((write x).mapFloats f))
      = some (value.bind result) := by
  cases value with
  | none   => rfl
  | some x => exact hread x

@[simp] theorem optionalOf?_count (value : Option UInt32) :
    optionalOf? mode (Node.count? mode)
      (value.map fun n => Node.ofValue ((countValue n).mapFloats f)) = some value := by
  rw [optionalOf?_map f mode some, Option.bind_fun_some]
  intro n
  have hnull : Node.isNull mode (.scalar (.int n.toNat)) = false := by cases mode <;> rfl
  have hcount : Node.count? mode (.scalar (.int n.toNat)) = some n := by
    have := countOfInt?_toNat n
    cases mode <;> exact this
  rw [countValue, Value.mapFloats, Node.ofValue, Node.optional?, hnull, hcount]
  rfl

@[simp] theorem optionalOf?_text (value : Option String) :
    optionalOf? mode (Node.text? mode)
      (value.map fun text => Node.ofValue ((Value.text text).mapFloats f)) = some value := by
  rw [optionalOf?_map f mode some, Option.bind_fun_some]
  intro text
  rw [Value.mapFloats, Node.ofValue]
  cases mode <;> rfl

@[simp] theorem optionalOf?_number (value : Option Binary64) :
    optionalOf? mode (Node.number? mode)
      (value.map fun x => Node.ofValue ((Value.float x).mapFloats f)) = some (value.bind f) := by
  refine optionalOf?_map f mode f (fun x => ?_) value
  rw [Value.mapFloats]
  cases h : f x with
  | none =>   -- written as null, and null is read as absent
      dsimp only
      rw [Node.ofValue]
      cases mode <;> rfl
  | some kept =>
      dsimp only
      rw [Node.ofValue]
      cases mode <;> rfl

/-- A flag is read from its entry. -/
@[simp] theorem flagOf?_ite (isSet : Bool) :
    flagOf? mode (if isSet then some (.scalar (.bool true)) else none) = some isSet := by
  cases isSet <;> cases mode <;> rfl

end Members
end SchemaForge
