import Mathlib.Logic.Relation
import SchemaForge.Document.Format
import SchemaForge.Proofs.Document.Object

/-!
# `Proofs.Document.KeyOrder` — key order and unknown keys

Two JSON documents that differ in the order of members and in members that nothing is read of hold the
same schema, or none. The order may differ in every table of the document. Members may be added to the
schema, to a field, to a rule record and to the rules of elements, under keys that are not known there;
what is known in a rule record depends on the kind that is named beside it, before or after.

## Contents
- **Changes.** `Changed`, one change at any depth.
- **Order.** `namedMembers?_perm` and `Role.keeps_perm`.
- **Unknown keys.** `Role.keeps_add`.
- **Documents.** `Changed.keeps`, and `Format.parse_eq_of_changed`.
-/

namespace SchemaForge

open Document

/-! ## Changes -/

/-- No member of a record in this place has the key. -/
def Role.IsUnknown (role : Role) (key : String) : Prop :=
  ∃ names, role.memberNames? = some names ∧ key ∉ names

/-- The place of what stands under a key of a table. -/
def Role.entry (role : Role) (members : List (Option String × Node)) : Option String → Role
  | some key => role.member (kindIn members) key
  | none     => plain

/-- One change in a place of a document: the order of a table, a new member under an unknown key, or a
    change further inside. Inside a field, a new value must have a meaning. -/
inductive Changed : Role → Node → Node → Prop where
  | permute {role : Role} {members members' : List (Option String × Node)} :
      members.Perm members' → Changed role (.object members) (.object members')
  | add {role : Role} {members : List (Option String × Node)} {key : String} {value : Node} :
      role.IsUnknown key → (role = .schema ∨ value.isReadable = true) →
      Changed role (.object members) (.object ((some key, value) :: members))
  | member {role : Role} {front back : List (Option String × Node)} {key : Option String}
      {value value' : Node} :
      Changed (role.entry (front ++ (key, value) :: back) key) value value' →
      Changed role (.object (front ++ (key, value) :: back)) (.object (front ++ (key, value') :: back))
  | item {role : Role} {front back : List Node} {value value' : Node} :
      Changed (role.item (front ++ value :: back) front.length) value value' →
      Changed role (.list (front ++ value :: back)) (.list (front ++ value' :: back))

/-! ## The order of members -/

section Order

variable {mode : Node.Mode} {names : List String} {entries entries' : List (Node × Node)}

theorem MembersKeep.of_eq {role : Role} {kind : Option Kind} {members members' : Members}
    (h : ∀ name, members.lookup name = members'.lookup name) : MembersKeep role kind members members' := by
  intro name
  rw [h name]
  cases members'.lookup name with
  | none      => exact .none
  | some node => exact .some (.refl _ _)

/-- Members with different names may be swapped. -/
theorem lookup_swap {name name' : String} (hne : name ≠ name') (value value' : Node)
    (members : Members) (other : String) :
    List.lookup other ((name, value) :: (name', value') :: members)
      = List.lookup other ((name', value') :: (name, value) :: members) := by
  by_cases hother : other = name
  · subst hother
    rw [List.lookup_cons_self, List.lookup_cons, beq_false_of_ne hne, List.lookup_cons_self]
  · rw [List.lookup_cons, beq_false_of_ne hother, List.lookup_cons, List.lookup_cons, List.lookup_cons,
      beq_false_of_ne hother]

/-- Two entries may be swapped. -/
theorem namedMembers?_swap (first second : Node × Node) {members : Members}
    (h : Node.namedMembers? mode names (first :: second :: entries) = some members) :
    ∃ members', Node.namedMembers? mode names (second :: first :: entries) = some members' ∧
      ∀ name, members.lookup name = members'.lookup name := by
  obtain ⟨key, value⟩ := first
  obtain ⟨key', value'⟩ := second
  rcases namedMembers?_cons_cases h with ⟨hfirst, hrest⟩ | ⟨name, others, hfirst, hrest, hnew, rfl⟩
  · -- the first entry is no member
    rcases namedMembers?_cons_cases hrest with ⟨hsecond, hlast⟩ | ⟨_, _, hsecond, hlast, hnew, rfl⟩
    · refine ⟨members, (namedMembers?_unknown hsecond).trans ?_, fun _ => rfl⟩
      exact (namedMembers?_unknown hfirst).trans hlast
    · refine ⟨_, namedMembers?_add hsecond ?_ hnew, fun _ => rfl⟩
      exact (namedMembers?_unknown hfirst).trans hlast
  · rcases namedMembers?_cons_cases hrest with
      ⟨hsecond, hlast⟩ | ⟨name', last, hsecond, hlast, hnew', rfl⟩
    · refine ⟨_, (namedMembers?_unknown hsecond).trans ?_, fun _ => rfl⟩
      exact namedMembers?_add hfirst hlast hnew
    · -- both are members, with different names
      have hne : name ≠ name' := by
        rintro rfl
        rw [List.lookup_cons_self] at hnew
        exact nomatch hnew
      rw [List.lookup_cons, beq_false_of_ne hne] at hnew
      have hnew' : List.lookup name' ((name, value) :: last) = none := by
        rw [List.lookup_cons, beq_false_of_ne hne.symm]
        exact hnew'
      refine ⟨_, namedMembers?_add hsecond (namedMembers?_add hfirst hlast hnew) hnew', ?_⟩
      exact lookup_swap hne value value' last

/-- **The members of a record do not depend on their order.** -/
theorem namedMembers?_perm (h : entries.Perm entries') {members : Members}
    (hmembers : Node.namedMembers? mode names entries = some members) :
    ∃ members', Node.namedMembers? mode names entries' = some members' ∧
      ∀ name, members.lookup name = members'.lookup name := by
  induction h generalizing members with
  | nil => exact ⟨members, hmembers, fun _ => rfl⟩
  | swap first second entries => exact namedMembers?_swap second first hmembers
  | trans _ _ ih ih' =>
      obtain ⟨middle, hmiddle, hlookup⟩ := ih hmembers
      obtain ⟨members', hmembers', hlookup'⟩ := ih' hmiddle
      exact ⟨members', hmembers', fun name => (hlookup name).trans (hlookup' name)⟩
  | cons entry _ ih =>
      obtain ⟨key, value⟩ := entry
      rcases namedMembers?_cons_cases hmembers with
        ⟨hkey, hrest⟩ | ⟨known, others, hkey, hrest, hnew, rfl⟩
      · obtain ⟨members', hmembers', hlookup⟩ := ih hrest
        exact ⟨members', (namedMembers?_unknown hkey).trans hmembers', hlookup⟩
      · obtain ⟨others', hothers', hlookup⟩ := ih hrest
        refine ⟨_, namedMembers?_add hkey hothers' (hlookup known ▸ hnew), fun name => ?_⟩
        rw [List.lookup_cons, List.lookup_cons, hlookup]

theorem entriesReadable_eq_all (entries : List (Node × Node)) :
    Node.entriesReadable entries = entries.all fun entry => entry.1.isReadable && entry.2.isReadable := by
  induction entries with
  | nil => rfl
  | cons entry entries ih => rw [Node.entriesReadable, List.all_cons, ih]

/-- A table where a plain member is read does not depend on its order. -/
theorem plainKeeps_perm (h : entries.Perm entries') : PlainKeeps (.table entries) (.table entries') where
  meaning _ := rfl
  text mode := by cases mode <;> exact .none_left _
  texts := .none_left _
  kind := by
    -- only a table of one entry can be a kind
    match entries, h with
    | [], h          => rw [h.nil_eq]
    | [_], h         => rw [h.singleton_eq]
    | _ :: _ :: _, _ => exact .none_left _
  payload hempty := by
    cases entries with
    | nil      => rwa [h.nil_eq] at hempty
    | cons _ _ => exact nomatch hempty
  isReadable hread := by
    rw [Node.isReadable, entriesReadable_eq_all] at hread ⊢
    rwa [← h.all_eq]

end Order

/-- **The order of a table makes no difference** in any place. -/
theorem Role.keeps_perm (role : Role) {members members' : List (Option String × Node)}
    (h : members.Perm members') : role.Keeps (.object members) (.object members') := by
  have hentries : (objectEntries members).Perm (objectEntries members') := h.map _
  by_cases hrole : role = plain
  · subst hrole
    exact plainKeeps_perm hentries
  · refine Role.keeps_of_members hrole (fun mode names _ found hfound => ?_) (fun _ hread => ?_)
      fun _ => (plainKeeps_perm hentries).isReadable
    · obtain ⟨found', hfound', hlookup⟩ := namedMembers?_perm hentries hfound
      exact ⟨found', hfound', .of_eq hlookup⟩
    · unfold Field.restReadable at hread ⊢
      rwa [← hentries.all_eq]

/-! ## Unknown keys -/

/-- An entry under an unknown key adds no member. -/
theorem members?_cons_unknown {names : List String} {key : String} (hkey : key ∉ names) (value : Node)
    (members : List (Option String × Node)) (mode : Node.Mode) :
    Node.members? mode names (.object ((some key, value) :: members))
      = Node.members? mode names (.object members) := by
  have hcontains : names.contains key = false := by
    rw [← Bool.not_eq_true, List.contains_iff_mem]
    exact hkey
  refine namedMembers?_unknown ?_
  rw [(isKey_textScalar (some key)).keyName, Option.map_some, hcontains]
  rfl

/-- **A member under an unknown key makes no difference**, whether it is added or removed. -/
theorem Role.keeps_add {role : Role} {members : List (Option String × Node)} {key : String} {value : Node}
    (hkey : role.IsUnknown key) (hvalue : role = schema ∨ value.isReadable = true) :
    role.Keeps (.object members) (.object ((some key, value) :: members)) ∧
      role.Keeps (.object ((some key, value) :: members)) (.object members) := by
  obtain ⟨names, hnames, hunknown⟩ := hkey
  have hrole : role ≠ plain := by
    rintro rfl
    exact nomatch hnames
  have hreadable : role.IsHeldBack → value.isReadable = true := by
    intro hheld
    refine hvalue.resolve_left ?_
    rintro rfl
    rcases hheld with h | h | ⟨_, h⟩ <;> exact nomatch h
  have hsame := members?_cons_unknown hunknown value members
  constructor
  · refine Role.keeps_of_members hrole (fun mode names' hnames' found hfound => ?_)
      (fun hfield hread => ?_) fun hheld hread => ?_
    · obtain rfl := Option.some.inj (hnames.symm.trans hnames')
      exact ⟨found, (hsame mode).trans hfound, .of_eq fun _ => rfl⟩
    · subst hfield
      show ((Field.directNames.contains key || value.isReadable) && _) = true
      rw [hvalue.resolve_left (by decide), Bool.or_true]
      exact hread
    · rw [Node.isReadable, objectEntries, List.map_cons, Node.entriesReadable, hreadable hheld]
      exact hread
  · -- without the member, less has to be readable
    refine Role.keeps_of_members hrole (fun mode names' hnames' found hfound => ?_)
      (fun _ hread => ?_) fun _ hread => ?_
    · obtain rfl := Option.some.inj (hnames.symm.trans hnames')
      exact ⟨found, (hsame mode).symm.trans hfound, .of_eq fun _ => rfl⟩
    · unfold Field.restReadable at hread ⊢
      exact (Bool.and_eq_true_iff.mp hread).2
    · rw [Node.object, Node.isReadable, objectEntries, List.map_cons, Node.entriesReadable,
        Bool.and_eq_true] at hread
      exact hread.2

/-! ## Changes further inside -/

/-- What stands under `type` is read without regard to the kind. -/
theorem Role.member_type (role : Role) (kind : Option Kind) : role.member kind "type" = plain := by
  cases role with
  | record known =>
      cases known with
      | none       => rfl
      | some known => cases known <;> rfl
  | _ => rfl

/-- The place of a member does not depend on its value. -/
theorem Role.entry_eq (role : Role) (front back : List (Option String × Node)) (key : Option String)
    (value value' : Node) :
    role.entry (front ++ (key, value) :: back) key = role.entry (front ++ (key, value') :: back) key := by
  cases key with
  | none      => rfl
  | some name =>
      by_cases hname : name = "type"
      · subst hname
        rw [entry, entry, member_type, member_type]
      · have hne : (some "type" == some name) = false :=
          beq_false_of_ne fun he => hname (Option.some.inj he).symm
        have hkind : kindIn (front ++ (some name, value) :: back)
            = kindIn (front ++ (some name, value') :: back) := by
          rw [kindIn, kindIn, List.lookup_append, List.lookup_append, List.lookup_cons, hne,
            List.lookup_cons, hne]
        rw [entry, entry, hkind]

/-- The place of an item does not depend on it. -/
theorem Role.item_eq (role : Role) (front back : List Node) (value value' : Node) :
    role.item (front ++ value :: back) front.length = role.item (front ++ value' :: back) front.length := by
  cases front with
  | cons first front => rfl
  | nil =>
      -- the first member of a record is read without regard to the kind
      cases role with
      | record known =>
          cases known with
          | none       => rfl
          | some known => cases known <;> rfl
      | _ => rfl

theorem forall₂_entryKeeps (role : Role) (kind : Option Kind) (members : List (Option String × Node)) :
    List.Forall₂ (EntryKeeps role kind) members (objectEntries members) := by
  induction members with
  | nil                => exact .nil
  | cons entry rest ih => exact .cons (entryKeeps_refl role kind entry) ih

theorem keeps_member {role : Role} {front back : List (Option String × Node)} {key : Option String}
    {value value' : Node} (h : (role.entry (front ++ (key, value) :: back) key).Keeps value value') :
    role.Keeps (.object (front ++ (key, value) :: back)) (.object (front ++ (key, value') :: back)) := by
  have hentries : objectEntries (front ++ (key, value') :: back)
      = objectEntries front ++ (.scalar (Json.textScalar key), value') :: objectEntries back := by
    rw [objectEntries, List.map_append]
    rfl
  refine Role.keeps_object ?_
  rw [hentries]
  refine List.rel_append (forall₂_entryKeeps _ _ front) (.cons ⟨isKey_textScalar key, ?_⟩
    (forall₂_entryKeeps _ _ back))
  rintro name rfl
  exact h

theorem keeps_item {role : Role} {front back : List Node} {value value' : Node}
    (h : (role.item (front ++ value :: back) front.length).Keeps value value') :
    role.Keeps (.list (front ++ value :: back)) (.list (front ++ value' :: back)) := by
  refine Role.keeps_list (by simp) fun index item item' hitem hitem' => ?_
  by_cases hindex : index = front.length
  · subst hindex
    rw [List.getElem?_append_right (Nat.le_refl _), Nat.sub_self] at hitem hitem'
    obtain rfl := Option.some.inj hitem
    obtain rfl := Option.some.inj hitem'
    exact h
  · have hsame : (front ++ value' :: back)[index]? = (front ++ value :: back)[index]? := by
      rcases Nat.lt_or_gt_of_ne hindex with hlt | hgt
      · rw [List.getElem?_append_left hlt, List.getElem?_append_left hlt]
      · obtain ⟨rest, hrest⟩ : ∃ rest, index - front.length = rest + 1 :=
          ⟨index - front.length - 1, by omega⟩
        rw [List.getElem?_append_right (Nat.le_of_lt hgt),
          List.getElem?_append_right (Nat.le_of_lt hgt), hrest]
        rfl
    rw [hsame, hitem] at hitem'
    rw [Option.some.inj hitem']

/-! ## Documents -/

/-- **A change makes no difference** in its place, in either direction. -/
theorem Changed.keeps {role : Role} {node node' : Node} (h : Changed role node node') :
    role.Keeps node node' ∧ role.Keeps node' node := by
  induction h with
  | permute hperm => exact ⟨Role.keeps_perm _ hperm, Role.keeps_perm _ hperm.symm⟩
  | add hkey hvalue => exact Role.keeps_add hkey hvalue
  | member _ ih =>
      refine ⟨keeps_member ih.1, keeps_member ?_⟩
      rw [Role.entry_eq]
      exact ih.2
  | item _ ih =>
      refine ⟨keeps_item ih.1, keeps_item ?_⟩
      rw [Role.item_eq]
      exact ih.2

theorem Document.Format.parse_eq_of_read? {text : String} {node : Node}
    (h : Json.read? text = some node) : Format.json.parse text = Schema.ofNode? node := by
  show (Json.read? text).bind Schema.ofNode? = _
  rw [h]
  rfl

/-- **Neither the order of members nor unknown members matter**: documents that changes of both kinds
    lead from one to the other are both accepted, with the same schema, or both refused. -/
theorem Document.Format.parse_eq_of_changed {text text' : String} {node node' : Node}
    (hread : Json.read? text = some node) (hread' : Json.read? text' = some node')
    (h : Relation.EqvGen (Changed .schema) node node') :
    Format.json.parse text = Format.json.parse text' := by
  have hschema : Schema.ofNode? node = Schema.ofNode? node' := by
    clear hread hread'
    induction h with
    | rel _ _ hchange      => exact hchange.keeps.1.antisymm hchange.keeps.2
    | refl _               => rfl
    | symm _ _ _ ih        => exact ih.symm
    | trans _ _ _ _ _ ih ih' => exact ih.trans ih'
  rw [parse_eq_of_read? hread, parse_eq_of_read? hread', hschema]

/-- A schema of one field, given by its kind, its record and two other members. -/
def sampleNode (members : List (Option String × Node)) : Node :=
  .object
    [(some "name", .scalar (.text "A")),
     (some "fields", .list
        [.object (members ++ [(some "name", .scalar (.text "x")),
          (some "required", .scalar (.bool true)), (some "nullable", .scalar (.bool false))])])]

theorem changed_sampleNode {members members' : List (Option String × Node)}
    (h : ∀ others, Changed .field (.object (members ++ others)) (.object (members' ++ others))) :
    Changed .schema (sampleNode members) (sampleNode members') :=
  @Changed.member .schema [_] [] (some "fields") _ _ (@Changed.item .fields [] [] _ _ (h _))

theorem read?_sampleNode : Json.read?
    "\x7b\"name\":\"A\",\"fields\":[\x7b\"type\":\"number\",\"validations\":\x7b\x7d,\"name\":\"x\",\"required\":true,\"nullable\":false\x7d]\x7d"
    = some (sampleNode [(some "type", .scalar (.text "number")), (some "validations", .object [])]) := by
  cbv

/-- The kind of a field behind its record, and a key that only the records of texts know. -/
theorem Document.Format.parse_eq_of_changed_number :
    Format.json.parse
        "\x7b\"name\":\"A\",\"fields\":[\x7b\"type\":\"number\",\"validations\":\x7b\x7d,\"name\":\"x\",\"required\":true,\"nullable\":false\x7d]\x7d"
      = Format.json.parse
        "\x7b\"name\":\"A\",\"fields\":[\x7b\"validations\":\x7b\"email\":true\x7d,\"type\":\"number\",\"name\":\"x\",\"required\":true,\"nullable\":false\x7d]\x7d" := by
  have hread' : Json.read?
      "\x7b\"name\":\"A\",\"fields\":[\x7b\"validations\":\x7b\"email\":true\x7d,\"type\":\"number\",\"name\":\"x\",\"required\":true,\"nullable\":false\x7d]\x7d"
      = some (sampleNode [(some "validations", .object [(some "email", .scalar (.bool true))]),
          (some "type", .scalar (.text "number"))]) := by
    cbv
  -- the new key first, then the order of the field
  have hadd : Changed (.record (some .number)) (.object [])
      (.object [(some "email", .scalar (.bool true))]) :=
    .add ⟨NumberRules.memberNames, rfl, by decide⟩ (Or.inr rfl)
  have hrecord : Changed .schema
      (sampleNode [(some "type", .scalar (.text "number")), (some "validations", .object [])])
      (sampleNode [(some "type", .scalar (.text "number")),
        (some "validations", .object [(some "email", .scalar (.bool true))])]) :=
    changed_sampleNode fun others =>
      @Changed.member .field [(some "type", .scalar (.text "number"))] others (some "validations") _ _ hadd
  have horder : Changed .schema
      (sampleNode [(some "type", .scalar (.text "number")),
        (some "validations", .object [(some "email", .scalar (.bool true))])])
      (sampleNode [(some "validations", .object [(some "email", .scalar (.bool true))]),
        (some "type", .scalar (.text "number"))]) :=
    changed_sampleNode fun others => .permute (.swap _ _ others)
  exact Document.Format.parse_eq_of_changed read?_sampleNode hread'
    (.trans _ _ _ (.rel _ _ hrecord) (.rel _ _ horder))

/-- A member whose value is no text that can be held is passed over in a schema and not in a field,
    though no member of a field has its key. -/
theorem Document.Format.parse_halfSurrogate :
    Role.field.IsUnknown "note" ∧
    Format.json.parse "\x7b\"name\":\"A\",\"fields\":[\x7b\"type\":\"number\",\"validations\":\x7b\x7d,\"name\":\"x\",\"required\":true,\"nullable\":false\x7d]\x7d"
      = some { name := "A", fields := [{ name := "x", rules := .number {} }] } ∧
    Format.json.parse "\x7b\"name\":\"A\",\"fields\":[\x7b\"type\":\"number\",\"validations\":\x7b\x7d,\"name\":\"x\",\"required\":true,\"nullable\":false,\"note\":\"\\ud800\"\x7d]\x7d"
      = none := by
  refine ⟨⟨_, rfl, by decide⟩, ?_, ?_⟩
  · rw [parse_eq_of_read? read?_sampleNode]
    rfl
  · exact Option.isNone_iff_eq_none.mp (by decide +kernel)

end SchemaForge
