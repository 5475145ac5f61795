import SchemaForge.Document.Toml.Reader
import SchemaForge.Proofs.Toml.Line

/-!
# `Proofs.Toml.Build` — what the lines of a document build

Entries go into the table that the last header opened, after what it holds already. The lemmas
follow a document of the shape that written ones have: a table with plain entries, and an array of
tables after them, each with plain entries and one table of its own.

## Contents
- **Entries.** `put_append`, `put_new` and `put_last`.
- **Places.** `AcceptsEntries`: where entries can be added, and `foldlM_entries`.
- **Headers.** `step?_element` and `step?_table`.
-/

namespace SchemaForge.Document.Toml

namespace Table

/-! ## Entries -/

theorem lookup_eq_none {entries : List (String × Item)} {key : String}
    (h : key ∉ entries.map Prod.fst) : entries.lookup key = none := by
  rw [List.lookup_eq_none_iff]
  intro entry hentry
  rw [bne_iff_ne]
  exact fun he => h (he ▸ List.mem_map_of_mem hentry)

/-- An item goes behind the entries of other keys. -/
theorem put_append {entries : List (String × Item)} {key : String} (h : key ∉ entries.map Prod.fst)
    (more : List (String × Item)) (item : Item) :
    put (entries ++ more) key item = entries ++ put more key item := by
  induction entries with
  | nil => rfl
  | cons other others ih =>
      rw [List.map_cons, List.mem_cons, not_or] at h
      rw [List.cons_append, put, if_neg fun he => h.1 he.symm, ih h.2, List.cons_append]

/-- A new item is put after all others. -/
theorem put_new {entries : List (String × Item)} {key : String} (h : key ∉ entries.map Prod.fst)
    (item : Item) : put entries key item = entries ++ [(key, item)] := by
  have hput := put_append h [] item
  rwa [List.append_nil] at hput

/-- The last item is replaced where it stands. -/
theorem put_last {entries : List (String × Item)} {key : String} (h : key ∉ entries.map Prod.fst)
    (old item : Item) : put (entries ++ [(key, old)]) key item = entries ++ [(key, item)] := by
  rw [put_append h, put, if_pos rfl]

theorem lookup_last {entries : List (String × Item)} {key : String}
    (h : key ∉ entries.map Prod.fst) (item : Item) :
    (entries ++ [(key, item)]).lookup key = some item := by
  rw [List.lookup_append, lookup_eq_none h, Option.none_or, List.lookup_cons_self]

/-- **A new entry is added after all others.** -/
theorem insert?_new {entries : List (String × Item)} {key : String}
    (h : key ∉ entries.map Prod.fst) (node : Node) (origin : Origin) :
    insert? [] key node ⟨origin, entries⟩ = some ⟨origin, entries ++ [(key, .value node)]⟩ := by
  rw [insert?, alter?, lookup_eq_none h, if_neg (by simp), put_new h]

/-! ## Paths -/

section Paths

variable {entries : List (String × Item)} {key : String} (h : key ∉ entries.map Prod.fst)
  (path : List String) (change : Table → Option Table) (origin : Origin)

include h

/-- A path goes on in the last table of an array. -/
theorem alter?_tables (last : List (String × Item)) (earlier : List (List (String × Item))) :
    alter? .implied (key :: path) change ⟨origin, entries ++ [(key, .tables last earlier)]⟩
      = (alter? .implied path change ⟨.header, last⟩).map fun child =>
          ⟨origin, entries ++ [(key, .tables child.entries earlier)]⟩ := by
  rw [alter?, lookup_last h]
  dsimp only
  cases alter? .implied path change ⟨.header, last⟩ with
  | none => rfl
  | some child => exact congrArg (fun put => some (Table.mk origin put)) (put_last h _ _)

/-- A path goes on in a table. -/
theorem alter?_table (inner : Origin) (members : List (String × Item)) :
    alter? .implied (key :: path) change ⟨origin, entries ++ [(key, .table inner members)]⟩
      = (alter? .implied path change ⟨inner, members⟩).map fun child =>
          ⟨origin, entries ++ [(key, .table child.origin child.entries)]⟩ := by
  rw [alter?, lookup_last h]
  dsimp only
  rw [if_neg (by simp)]
  cases alter? .implied path change ⟨inner, members⟩ with
  | none => rfl
  | some child => exact congrArg (fun put => some (Table.mk origin put)) (put_last h _ _)

end Paths

end Table

/-! ## Places -/

/-- The item of an entry that takes one line. -/
def valueItem (entry : String × Value) : String × Item := (entry.1, .value (Node.ofValue entry.2))

/-- Entries can be added to the table at a place: each new one comes after all others. -/
def AcceptsEntries (place : List (String × Item) → Build) : Prop :=
  ∀ entries key node, key ∉ entries.map Prod.fst →
    (place entries).step? (.entry [] key node) = some (place (entries ++ [(key, .value node)]))

/-- **The lines of entries with different keys add the entries in their order.** -/
theorem foldlM_entries {place : List (String × Item) → Build} (hplace : AcceptsEntries place)
    (before : List (String × Item)) (entries : List (String × Value))
    (h : (before.map Prod.fst ++ entries.map Prod.fst).Nodup) :
    (entries.map entryLine).foldlM Build.step? (place before)
      = some (place (before ++ entries.map valueItem)) := by
  induction entries generalizing before with
  | nil => rw [List.map_nil, List.map_nil, List.append_nil]; rfl
  | cons entry entries ih =>
      have hnew : entry.1 ∉ before.map Prod.fst := fun hmem =>
        (List.nodup_append.mp h).2.2 _ hmem _ List.mem_cons_self rfl
      have hstep : (place before).step? (entryLine entry)
          = some (place (before ++ [valueItem entry])) := hplace before entry.1 _ hnew
      rw [List.map_cons, List.foldlM_cons, hstep]
      have hrest := ih (before ++ [valueItem entry]) (by simpa [valueItem] using h)
      rw [List.append_assoc, List.singleton_append] at hrest
      exact hrest

/-- The document so far, with nothing but entries. -/
def documentPlace (entries : List (String × Item)) : Build := ⟨⟨.header, entries⟩, []⟩

theorem acceptsEntries_document : AcceptsEntries documentPlace := by
  intro entries key node hkey
  show (Table.insert? [] key node ⟨.header, entries⟩).map _ = _
  rw [Table.insert?_new hkey]
  rfl

section Arrays

variable {top : List (String × Item)} {key inner : String} (hkey : key ∉ top.map Prod.fst)
  (earlier : List (List (String × Item)))

/-- The last table of an array after the entries of the document. -/
def elementPlace (top : List (String × Item)) (key : String) (earlier : List (List (String × Item)))
    (entries : List (String × Item)) : Build :=
  ⟨⟨.header, top ++ [(key, .tables entries earlier)]⟩, [key]⟩

/-- The table in the last table of an array. -/
def innerPlace (top : List (String × Item)) (key : String) (earlier : List (List (String × Item)))
    (members : List (String × Item)) (inner : String) (entries : List (String × Item)) : Build :=
  ⟨⟨.header, top ++ [(key, .tables (members ++ [(inner, .table .header entries)]) earlier)]⟩,
    [key, inner]⟩

include hkey

theorem acceptsEntries_element : AcceptsEntries (elementPlace top key earlier) := by
  intro entries name node hname
  show (Table.alter? .implied [key] (Table.insert? [] name node) ⟨.header, _⟩).map _ = _
  rw [Table.alter?_tables hkey, Table.alter?, Table.insert?_new hname]
  rfl

theorem acceptsEntries_inner {members : List (String × Item)}
    (hinner : inner ∉ members.map Prod.fst) :
    AcceptsEntries (innerPlace top key earlier members inner) := by
  intro entries name node hname
  show (Table.alter? .implied [key, inner] (Table.insert? [] name node) ⟨.header, _⟩).map _ = _
  rw [Table.alter?_tables hkey, Table.alter?_table hinner, Table.alter?, Table.insert?_new hname]
  rfl

/-! ## Headers -/

/-- The entries of a document with the tables of an array after them, the last one first. -/
def withTables (top : List (String × Item)) (key : String) : List (List (String × Item)) →
    List (String × Item)
  | []              => top
  | last :: earlier => top ++ [(key, .tables last earlier)]

/-- **The header of an array appends a table to it**, wherever entries went before. -/
theorem step?_element (tables : List (List (String × Item))) (current : List String) :
    Build.step? ⟨⟨.header, withTables top key tables⟩, current⟩ (.element [] key)
      = some (elementPlace top key tables []) := by
  show (Table.alter? .implied [] _ ⟨.header, withTables top key tables⟩).map _ = _
  rw [Table.alter?]
  cases tables with
  | nil =>
      dsimp only [withTables]
      rw [Table.lookup_eq_none hkey, Table.put_new hkey]
      rfl
  | cons last earlier =>
      dsimp only [withTables]
      rw [Table.lookup_last hkey]
      dsimp only
      rw [Table.put_last hkey]
      rfl

/-- **The header of a table in the last table of an array opens it.** -/
theorem step?_table {members : List (String × Item)} (hinner : inner ∉ members.map Prod.fst) :
    Build.step? (elementPlace top key earlier members) (.table [key] inner)
      = some (innerPlace top key earlier members inner []) := by
  show (Table.alter? .implied [key] _ ⟨.header, _⟩).map _ = _
  rw [Table.alter?_tables hkey, Table.alter?, Table.lookup_eq_none hinner]
  dsimp only
  rw [Table.put_new hinner]
  rfl

end Arrays

end SchemaForge.Document.Toml
