import SchemaForge.Document.Json.Reader
import SchemaForge.Proofs.Document.Role

/-!
# `Proofs.Document.Object` — tables with texts as keys, and lists

A table whose keys are texts is read in the same way in both modes: a member is what stands under its
name. So such a table is kept, in any place, by a table with the same keys whose values keep its values
in theirs, and a list by a list of the same length. What a field holds back until its kind is known is
kept only if it stays readable.

## Contents
- **Keys.** `IsKey`, a node that is read as a text or as no key at all.
- **Tables.** `Node.object`, `kindIn`, the kind that a table names, and `Role.keeps_of_members`.
- **Entry by entry.** `Role.keeps_object` and `Role.keeps_list`.
-/

namespace SchemaForge

open Document

/-! ## Keys -/

/-- The node is read as a key with the given text; without a text, it is no key. -/
structure IsKey (key : Node) (text : Option String) : Prop where
  keyName : ∀ mode names, Node.keyName? mode names key
    = text.map fun name => if names.contains name then some name else none
  direct : key.text? .direct = text
  isReadable : key.isReadable = text.isSome

theorem isKey_textScalar (text : Option String) : IsKey (.scalar (Json.textScalar text)) text where
  keyName := fun mode names => by cases text <;> cases mode <;> rfl
  direct := by cases text <;> rfl
  isReadable := by cases text <;> rfl

/-- A key that means a member has its name as text. -/
theorem IsKey.eq_some {key : Node} {text : Option String} (h : IsKey key text) {mode : Node.Mode}
    {names : List String} {name : String} (hname : Node.keyName? mode names key = some (some name)) :
    text = some name := by
  rw [h.keyName] at hname
  obtain ⟨other, rfl, hcontains⟩ := Option.map_eq_some_iff.mp hname
  split at hcontains
  · rw [Option.some.inj hcontains]
  · exact nomatch hcontains

/-- A key that means no member has a text that is no name. -/
theorem IsKey.ne_some {key : Node} {text : Option String} (h : IsKey key text) {mode : Node.Mode}
    {names : List String} (hname : Node.keyName? mode names key = some none) {name : String}
    (hmem : name ∈ names) : text ≠ some name := by
  rintro rfl
  rw [h.keyName, Option.map_some, if_pos (List.contains_iff_mem.mpr hmem)] at hname
  exact nomatch hname

/-! ## Tables -/

/-- The entries of a table with texts as keys. -/
def objectEntries (members : List (Option String × Node)) : List (Node × Node) :=
  members.map fun (key, value) => (.scalar (Json.textScalar key), value)

/-- A table with texts as keys. A text that cannot be held makes the key unreadable. -/
def Document.Node.object (members : List (Option String × Node)) : Node :=
  .table (objectEntries members)

/-- The kind that a table names. -/
def kindIn (members : List (Option String × Node)) : Option Kind :=
  (members.lookup (some "type")).bind (Kind.ofNode? .buffered)

section Tables

variable {mode : Node.Mode} {names : List String} {key value : Node} {text : Option String}
  {entries : List (Node × Node)} {members : Members} {name : String}

/-- A key that means no member adds none. -/
theorem namedMembers?_unknown (hkey : Node.keyName? mode names key = some none) :
    Node.namedMembers? mode names ((key, value) :: entries) = Node.namedMembers? mode names entries := by
  rw [Node.namedMembers?, hkey]
  exact Option.bind_fun_some _

/-- A key that means a member adds it to the others, if it is not one of them. -/
theorem namedMembers?_known (hkey : Node.keyName? mode names key = some (some name)) :
    Node.namedMembers? mode names ((key, value) :: entries)
      = (Node.namedMembers? mode names entries).bind fun others =>
          if (others.lookup name).isSome then none else some ((name, value) :: others) := by
  rw [Node.namedMembers?, hkey]
  rfl

/-- A known entry in front of members that do not have it. -/
theorem namedMembers?_add {others : Members} (hkey : Node.keyName? mode names key = some (some name))
    (hothers : Node.namedMembers? mode names entries = some others) (hnew : others.lookup name = none) :
    Node.namedMembers? mode names ((key, value) :: entries) = some ((name, value) :: others) := by
  rw [namedMembers?_known hkey, hothers, Option.bind_some, hnew]
  rfl

/-- A first entry is read on its own: it adds its member or nothing. -/
theorem namedMembers?_cons_cases
    (h : Node.namedMembers? mode names ((key, value) :: entries) = some members) :
    (Node.keyName? mode names key = some none ∧ Node.namedMembers? mode names entries = some members) ∨
    ∃ name others, Node.keyName? mode names key = some (some name) ∧
      Node.namedMembers? mode names entries = some others ∧ others.lookup name = none ∧
      members = (name, value) :: others := by
  cases hkey : Node.keyName? mode names key with
  | none =>
      rw [Node.namedMembers?, hkey] at h
      cases h
  | some meant =>
      cases meant with
      | none =>
          rw [namedMembers?_unknown hkey] at h
          exact Or.inl ⟨rfl, h⟩
      | some name =>
          rw [namedMembers?_known hkey] at h
          obtain ⟨others, hothers, h⟩ := Option.bind_eq_some_iff.mp h
          split at h
          · cases h
          · next hlookup =>
              have hnew := Option.not_isSome_iff_eq_none.mp hlookup
              exact Or.inr ⟨name, others, rfl, hothers, hnew, (Option.some.inj h).symm⟩

/-- A member of a table with texts as keys is what stands under its name. -/
theorem lookup_object {object : List (Option String × Node)} (hname : name ∈ names)
    (h : Node.namedMembers? mode names (objectEntries object) = some members) :
    members.lookup name = object.lookup (some name) := by
  induction object generalizing members with
  | nil =>
      obtain rfl := Option.some.inj h
      rfl
  | cons entry object ih =>
      obtain ⟨text, value⟩ := entry
      have hkey := isKey_textScalar text
      rcases namedMembers?_cons_cases h with ⟨hnone, hrest⟩ | ⟨known, others, hknown, hrest, -, rfl⟩
      · have hne := hkey.ne_some hnone hname
        rw [ih hrest, List.lookup_cons, beq_false_of_ne hne.symm]
      · obtain rfl := hkey.eq_some hknown
        by_cases hsame : name = known
        · rw [hsame, List.lookup_cons_self, List.lookup_cons_self]
        · rw [List.lookup_cons, beq_false_of_ne hsame, List.lookup_cons,
            beq_false_of_ne fun he => hsame (Option.some.inj he)]
          exact ih hrest

/-- A table names the kind that stands under `type`. -/
theorem namesKind_object (mode : Node.Mode) {names : List String} (htype : "type" ∈ names)
    (object : List (Option String × Node)) :
    NamesKind (kindIn object) mode names (.object object) := by
  intro members known hmembers hknown
  rw [Members.required?, lookup_object htype hmembers] at hknown
  exact hknown

end Tables

/-- **A table is kept in a place for a record** if its members are kept and what is held back inside a
    field stays readable. -/
theorem Role.keeps_of_members {role : Role} {object : List (Option String × Node)}
    {entries : List (Node × Node)} (hrole : role ≠ plain)
    (hmembers : ∀ mode names, role.memberNames? = some names →
      MembersKept role (kindIn object) mode names (.object object) (.table entries))
    (hrest : role = field → Field.restReadable (objectEntries object) = true →
      Field.restReadable entries = true)
    (hreadable : role.IsHeldBack → (Node.object object).isReadable = true →
      (Node.table entries).isReadable = true) :
    role.Keeps (.object object) (.table entries) := by
  cases role with
  | schema => exact Schema.keeps_ofNode (hmembers _ _ rfl)
  | fields => exact Keeps.none_left _
  | field =>
      exact Field.keeps_ofNode (namesKind_object _ (by decide) object) (hmembers _ _ rfl) (hrest rfl)
  | record kind =>
      refine ⟨fun known hknown => ?_, hreadable (Or.inr (Or.inr ⟨_, rfl⟩))⟩
      subst hknown
      exact Rules.keeps_ofRecord (hmembers _ _ rfl)
  | rules =>
      exact ⟨Rules.keeps_ofNode (namesKind_object _ (by decide) object) (hmembers _ _ rfl), rfl,
        hreadable (Or.inr (Or.inl rfl))⟩
  | plain => exact absurd rfl hrole

/-! ## Entry by entry -/

/-- An entry has the same key, and the value keeps the other value in the place of the member. -/
def EntryKeeps (role : Role) (kind : Option Kind) (entry : Option String × Node) (entry' : Node × Node) :
    Prop :=
  IsKey entry'.1 entry.1 ∧ ∀ name, entry.1 = some name → (role.member kind name).Keeps entry.2 entry'.2

theorem entryKeeps_refl (role : Role) (kind : Option Kind) (entry : Option String × Node) :
    EntryKeeps role kind entry (.scalar (Json.textScalar entry.1), entry.2) :=
  ⟨isKey_textScalar _, fun _ _ => .refl _ _⟩

section Entries

variable {role : Role} {kind : Option Kind} {object : List (Option String × Node)}
  {entries : List (Node × Node)}

/-- One entry more keeps the members. -/
theorem MembersKeep.cons {members members' : Members} {name : String} {value value' : Node}
    (h : MembersKeep role kind members members') (hvalue : (role.member kind name).Keeps value value') :
    MembersKeep role kind ((name, value) :: members) ((name, value') :: members') := by
  intro other
  by_cases hother : other = name
  · rw [hother, List.lookup_cons_self, List.lookup_cons_self]
    exact .some hvalue
  · rw [List.lookup_cons, beq_false_of_ne hother, List.lookup_cons, beq_false_of_ne hother]
    exact h other

theorem membersKept_entries (mode : Node.Mode) (names : List String)
    (h : List.Forall₂ (EntryKeeps role kind) object entries) :
    MembersKept role kind mode names (.object object) (.table entries) := by
  induction h with
  | nil =>
      intro members hmembers
      obtain rfl := Option.some.inj hmembers
      exact ⟨[], rfl, fun _ => .none⟩
  | @cons entry entry' object entries hentry _ ih =>
      obtain ⟨text, value⟩ := entry
      obtain ⟨key, value'⟩ := entry'
      obtain ⟨hkey, hvalue⟩ := hentry
      have hsame := ((isKey_textScalar text).keyName mode names).trans (hkey.keyName mode names).symm
      intro members hmembers
      rcases namedMembers?_cons_cases hmembers with
        ⟨hnone, hrest⟩ | ⟨known, others, hknown, hrest, hnew, rfl⟩
      · obtain ⟨members', hrest', hkeep⟩ := ih members hrest
        exact ⟨members', (namedMembers?_unknown (hsame ▸ hnone)).trans hrest', hkeep⟩
      · obtain ⟨others', hrest', hkeep⟩ := ih others hrest
        have htext := (isKey_textScalar text).eq_some hknown
        have hnew' : others'.lookup known = none := by
          have hrel := hkeep known
          rw [hnew] at hrel
          generalize others'.lookup known = member' at hrel
          cases hrel
          rfl
        exact ⟨(known, value') :: others', namedMembers?_add (hsame ▸ hknown) hrest' hnew',
          hkeep.cons (hvalue known htext)⟩

/-- What is held back in a field stays readable. -/
theorem restReadable_entries (h : List.Forall₂ (EntryKeeps .field kind) object entries)
    (hread : Field.restReadable (objectEntries object) = true) : Field.restReadable entries = true := by
  induction h with
  | nil => rfl
  | @cons entry entry' object entries hentry _ ih =>
      obtain ⟨text, value⟩ := entry
      obtain ⟨key, value'⟩ := entry'
      obtain ⟨hkey, hvalue⟩ := hentry
      have htext : key.text? .direct = text := hkey.direct
      unfold Field.restReadable at hread ih ⊢
      rw [objectEntries, List.map_cons, List.all_cons, Bool.and_eq_true] at hread
      rw [List.all_cons, Bool.and_eq_true]
      refine ⟨?_, ih hread.2⟩
      have hfirst := hread.1
      dsimp only at hfirst ⊢
      rw [(isKey_textScalar text).direct] at hfirst
      rw [htext]
      cases text with
      | none => exact hfirst
      | some name =>
          dsimp only at hfirst ⊢
          rw [Bool.or_eq_true] at hfirst ⊢
          exact hfirst.imp id
            ((hvalue name rfl).isReadable (Role.isHeldBack_member (Or.inl rfl) kind name))

/-- A table that is held back stays readable. -/
theorem isReadable_entries (hrole : role.IsHeldBack)
    (h : List.Forall₂ (EntryKeeps role kind) object entries)
    (hread : (Node.object object).isReadable = true) : (Node.table entries).isReadable = true := by
  unfold Node.object at hread
  rw [Node.isReadable] at hread ⊢
  induction h with
  | nil => rfl
  | @cons entry entry' object entries hentry _ ih =>
      obtain ⟨text, value⟩ := entry
      obtain ⟨key, value'⟩ := entry'
      obtain ⟨hkey, hvalue⟩ := hentry
      rw [objectEntries, List.map_cons, Node.entriesReadable, Bool.and_eq_true, Bool.and_eq_true,
        (isKey_textScalar text).isReadable] at hread
      obtain ⟨⟨htext, hfirst⟩, hrest⟩ := hread
      obtain ⟨name, rfl⟩ := Option.isSome_iff_exists.mp htext
      have hvalue' := (hvalue name rfl).isReadable (Role.isHeldBack_member (Or.inr hrole) kind name) hfirst
      rw [Node.entriesReadable, hkey.isReadable, hvalue', ih hrest]
      rfl

/-- A table where a plain member is read keeps what is read of it. -/
theorem plainKeeps_entries (h : List.Forall₂ (EntryKeeps .plain kind) object entries) :
    PlainKeeps (.object object) (.table entries) where
  meaning _ := rfl
  text mode := by cases mode <;> exact .none_left _
  texts := .none_left _
  kind := by
    -- a kind may be written as a table of one entry
    cases h with
    | nil => rfl
    | @cons entry entry' object entries hentry hrest =>
        cases hrest with
        | cons _ _ => exact .none_left _
        | nil =>
            obtain ⟨text, value⟩ := entry
            obtain ⟨key, value'⟩ := entry'
            obtain ⟨hkey, hvalue⟩ := hentry
            have hname := (isKey_textScalar text).keyName .buffered (Kind.all.map Kind.name)
            show Keeps (Option.bind (Node.keyName? .buffered _ (.scalar (Json.textScalar text))) _)
              (Option.bind (Node.keyName? .buffered _ key) _)
            rw [hname, hkey.keyName .buffered (Kind.all.map Kind.name)]
            refine (Keeps.refl _).bind fun meant hmeant => (Keeps.refl _).bind fun known _ => ?_
            obtain ⟨name, rfl, -⟩ := Option.map_eq_some_iff.mp hmeant
            have hpayload := PlainKeeps.payload (hvalue name rfl)
            split
            · next hempty =>
                rw [if_pos (hpayload hempty)]
            · exact .none_left _
  payload hempty := by
    cases h with
    | nil => exact hempty
    | cons _ _ => exact nomatch hempty
  isReadable := isReadable_entries Role.isHeldBack_plain h

end Entries

/-- **A table is kept in its place** by a table with the same keys that keeps its values in theirs. -/
theorem Role.keeps_object {role : Role} {object : List (Option String × Node)}
    {entries : List (Node × Node)}
    (h : List.Forall₂ (EntryKeeps role (kindIn object)) object entries) :
    role.Keeps (.object object) (.table entries) := by
  by_cases hrole : role = plain
  · subst hrole
    exact plainKeeps_entries h
  · refine Role.keeps_of_members hrole (fun mode names _ => membersKept_entries mode names h) ?_ fun hheld =>
      isReadable_entries hheld h
    rintro rfl
    exact restReadable_entries h

/-! ## Item by item -/

/-- The place of an item of a list. A record may be a list of its first members. -/
def Role.item (role : Role) (items : List Node) (index : Nat) : Role :=
  match role, role.memberNames? with
  | fields, _          => field
  | role,   some names =>
    match names[index]? with
    | some name => role.member (items.head?.bind (Kind.ofNode? .buffered)) name
    | none      => plain
  | _,      none       => plain

section Items

variable {role : Role} {kind : Option Kind} {items items' : List Node}

theorem isHeldBack_item (hrole : role.IsHeldBack) (items : List Node) (index : Nat) :
    (role.item items index).IsHeldBack := by
  unfold Role.item
  split
  · rcases hrole with h | h | ⟨_, h⟩ <;> exact nomatch h
  · split
    · exact Role.isHeldBack_member (Or.inr hrole) _ _
    · exact Role.isHeldBack_plain
  · exact Role.isHeldBack_plain

/-- The members in the order of their names are kept if each is. -/
theorem rel_lookup_zip {names : List String} {name : String} {R : String → Node → Node → Prop}
    (hlength : items.length = items'.length)
    (h : ∀ (index : Nat) known item item', names[index]? = some known → items[index]? = some item →
      items'[index]? = some item' → R known item item') :
    Option.Rel (R name) ((names.zip items).lookup name) ((names.zip items').lookup name) := by
  induction names generalizing items items' with
  | nil => exact .none
  | cons known names ih =>
      match items, items', hlength with
      | [], [], _ => exact .none
      | item :: items, item' :: items', hlength =>
          rw [List.zip_cons_cons, List.zip_cons_cons]
          by_cases hname : name = known
          · subst hname
            rw [List.lookup_cons_self, List.lookup_cons_self]
            exact .some (h 0 name item item' rfl rfl rfl)
          · rw [List.lookup_cons, beq_false_of_ne hname, List.lookup_cons, beq_false_of_ne hname]
            exact ih (Nat.succ.inj hlength) fun index => h (index + 1)

theorem membersKept_items (mode : Node.Mode) {names : List String}
    (hlength : items.length = items'.length)
    (h : ∀ (index : Nat) name item item', names[index]? = some name → items[index]? = some item →
      items'[index]? = some item' → (role.member kind name).Keeps item item') :
    MembersKept role kind mode names (.list items) (.list items') := by
  intro members hmembers
  unfold Node.members? at hmembers ⊢
  dsimp only at hmembers ⊢
  rw [← hlength]
  split at hmembers
  · next hle =>
      obtain rfl := Option.some.inj hmembers
      exact ⟨_, if_pos hle, fun name => rel_lookup_zip hlength h⟩
  · exact nomatch hmembers

/-- A list of members names its kind first. -/
theorem namesKind_items (items : List Node) :
    NamesKind (items.head?.bind (Kind.ofNode? .buffered)) .buffered Rules.memberNames (.list items) := by
  intro members known hmembers hknown
  unfold Node.members? at hmembers
  dsimp only at hmembers
  split at hmembers
  · obtain rfl := Option.some.inj hmembers
    cases items with
    | nil             => exact nomatch hknown
    | cons item items => exact hknown
  · exact nomatch hmembers

/-- A list that is held back stays readable. -/
theorem isReadable_items (h : List.Forall₂ (fun item item' : Node => item.isReadable = true →
      item'.isReadable = true) items items')
    (hread : (Node.list items).isReadable = true) : (Node.list items').isReadable = true := by
  rw [Node.isReadable] at hread ⊢
  induction h with
  | nil => rfl
  | cons hitem _ ih =>
      rw [Node.itemsReadable, Bool.and_eq_true] at hread
      rw [Node.itemsReadable, hitem hread.1, ih hread.2]
      rfl

end Items

/-- **A list is kept in its place** by a list of the same length that keeps its items in theirs. -/
theorem Role.keeps_list {role : Role} {items items' : List Node} (hlength : items.length = items'.length)
    (h : ∀ (index : Nat) item item', items[index]? = some item → items'[index]? = some item' →
      (role.item items index).Keeps item item') :
    role.Keeps (.list items) (.list items') := by
  have hpairs : ∀ {R : Node → Node → Prop}, (∀ (index : Nat) item item', items[index]? = some item →
      items'[index]? = some item' → R item item') → List.Forall₂ R items items' := by
    intro R hR
    refine List.forall₂_iff_get.mpr ⟨hlength, fun index hindex hindex' => ?_⟩
    exact hR index _ _ (List.getElem?_eq_getElem hindex) (List.getElem?_eq_getElem hindex')
  have hreadable (hrole : role.IsHeldBack) :
      (Node.list items).isReadable = true → (Node.list items').isReadable = true :=
    isReadable_items (hpairs fun index item item' hitem hitem' =>
      (h index item item' hitem hitem').isReadable (isHeldBack_item hrole items index))
  -- an item of a record is in the place of the member of its name
  have hmembers {names : List String} (hnames : role.memberNames? = some names) :
      ∀ (index : Nat) name item item', names[index]? = some name → items[index]? = some item →
        items'[index]? = some item' →
        (role.member (items.head?.bind (Kind.ofNode? .buffered)) name).Keeps item item' := by
    intro index name item item' hname hitem hitem'
    have hplace : role.item items index
        = role.member (items.head?.bind (Kind.ofNode? .buffered)) name := by
      cases role with
      | fields => exact nomatch hnames
      | plain  => exact nomatch hnames
      | _      => simp only [Role.item, hnames, hname]
    exact hplace ▸ h index item item' hitem hitem'
  cases role with
  | schema => exact Schema.keeps_ofNode (membersKept_items _ hlength (hmembers rfl))
  | fields => exact Keeps.mapM (hpairs fun index => h index)
  | field  => exact Keeps.none_left _
  | record kind =>
      refine ⟨fun known hknown => ?_, hreadable (Or.inr (Or.inr ⟨_, rfl⟩))⟩
      subst hknown
      exact Rules.keeps_ofRecord (membersKept_items _ hlength (hmembers rfl))
  | rules =>
      exact ⟨Rules.keeps_ofNode (namesKind_items items) (membersKept_items _ hlength (hmembers rfl)), rfl,
        hreadable (Or.inr (Or.inl rfl))⟩
  | plain =>
      exact {
        meaning := fun _ => rfl
        text := fun mode => by cases mode <;> exact Keeps.none_left _
        texts := Keeps.mapM (hpairs fun index item item' hitem hitem' =>
          PlainKeeps.text (h index item item' hitem hitem') .buffered)
        kind := Keeps.none_left _
        payload := fun hempty => nomatch hempty
        isReadable := hreadable isHeldBack_plain }

end SchemaForge
