import Mathlib.Data.List.Forall2
import Mathlib.Data.Option.Basic
import SchemaForge.Proofs.Document.Depth

/-!
# `Proofs.Document.Role` — what is read of a node in its place

What a node is read as depends on its place in a document: as a schema, as the list of its fields, as a
field, as the record of a kind, as the rules of elements, or as a plain member. A node keeps another one
in a place if whatever is read of that one is read of it, too. Records are read member by member, so a
record keeps another one as soon as its members keep those of the other in their own places.

## Contents
- **Readings.** `Keeps`, between two readings, and `PlainKeeps`, between plain members.
- **Places.** `Role`, `Role.member`, and `Role.Keeps`.
- **Records.** `MembersKept`, and what follows from it in each place.
-/

namespace SchemaForge

open Document

/-! ## Readings -/

/-- Whatever the first reading gives, the second one gives. -/
def Keeps {α : Type} (reading reading' : Option α) : Prop :=
  ∀ result, reading = some result → reading' = some result

namespace Keeps

variable {α β : Type} {reading reading' : Option α}

@[refl] protected theorem refl (reading : Option α) : Keeps reading reading := fun _ h => h

theorem none_left (reading : Option α) : Keeps none reading := fun _ h => nomatch h

theorem of_eq (h : reading = reading') : Keeps reading reading' := fun _ hr => h ▸ hr

protected theorem antisymm (h : Keeps reading reading') (h' : Keeps reading' reading) :
    reading = reading' := by
  cases reading with
  | some result => exact (h result rfl).symm
  | none =>
      cases reading' with
      | none        => rfl
      | some result => exact nomatch h' result rfl

/-- Readings one after the other are kept if each is; the second may rely on what the first gave. -/
protected theorem bind {next next' : α → Option β} (h : Keeps reading reading')
    (hnext : ∀ result, reading = some result → Keeps (next result) (next' result)) :
    Keeps (reading.bind next) (reading'.bind next') := by
  intro final hfinal
  obtain ⟨result, hresult, hfinal⟩ := Option.bind_eq_some_iff.mp hfinal
  rw [h result hresult]
  exact hnext result hresult final hfinal

protected theorem map (h : Keeps reading reading') (f : α → β) :
    Keeps (reading.map f) (reading'.map f) := by
  intro final hfinal
  obtain ⟨result, hresult, rfl⟩ := Option.map_eq_some_iff.mp hfinal
  rw [h result hresult]
  rfl

/-- The items of a list are kept if each is. -/
theorem mapM {read : Node → Option α} {items items' : List Node}
    (h : List.Forall₂ (fun item item' => Keeps (read item) (read item')) items items') :
    Keeps (items.mapM read) (items'.mapM read) := by
  induction h with
  | nil => rfl
  | cons hitem _ ih =>
      rw [List.mapM_cons, List.mapM_cons]
      exact hitem.bind fun _ _ => ih.bind fun _ _ => .refl _

end Keeps

/-! ## Plain members -/

/-- Whatever is read of the first node where it is a member without members of its own. -/
structure PlainKeeps (node node' : Node) : Prop where
  meaning : ∀ mode, node.meaning? mode = node'.meaning? mode
  text : ∀ mode, Keeps (node.text? mode) (node'.text? mode)
  texts : Keeps (node.items? (Node.text? .buffered)) (node'.items? (Node.text? .buffered))
  kind : Keeps (Kind.ofNode? .buffered node) (Kind.ofNode? .buffered node')
  payload : isEmptyPayload .buffered node = true → isEmptyPayload .buffered node' = true
  isReadable : node.isReadable = true → node'.isReadable = true

namespace PlainKeeps

variable {node node' : Node}

@[refl] protected theorem refl (node : Node) : PlainKeeps node node :=
  ⟨fun _ => rfl, fun _ => .refl _, .refl _, .refl _, id, id⟩

variable (h : PlainKeeps node node') (mode : Node.Mode)
include h

theorem isNull : node.isNull mode = node'.isNull mode := by
  rw [Node.isNull, Node.isNull, h.meaning]

theorem bool : Keeps (node.bool? mode) (node'.bool? mode) :=
  .of_eq (by rw [Node.bool?, Node.bool?, h.meaning])

theorem number : Keeps (node.number? mode) (node'.number? mode) :=
  .of_eq (by rw [Node.number?, Node.number?, h.meaning])

theorem count : Keeps (node.count? mode) (node'.count? mode) :=
  .of_eq (by rw [Node.count?, Node.count?, h.meaning])

end PlainKeeps

/-! ## Places -/

/-- The place of a node in a schema document. -/
inductive Role where
  | schema
  | fields
  | field
  /-- The rule record of a kind, which is missing where no kind is named. -/
  | record (kind : Option Kind)
  /-- The rules of elements, a kind and its record. -/
  | rules
  /-- A member without members of its own, or one that nothing is read of. -/
  | plain
deriving DecidableEq

/-- The members of the rule record of a kind. -/
def Kind.memberNames : Kind → List String
  | .string  => StringRules.memberNames
  | .number  => NumberRules.memberNames
  | .boolean => []
  | .date    => DateRules.memberNames
  | .enum    => EnumRules.memberNames
  | .array   => ArrayRules.memberNames

namespace Role

/-- The members that are known in a place, if it is one for a record. -/
def memberNames? : Role → Option (List String)
  | schema             => some ["name", "description", "fields"]
  | field              => some (Field.directNames ++ Rules.memberNames)
  | rules              => some Rules.memberNames
  | record (some kind) => some kind.memberNames
  | record none        => some []
  | fields | plain     => none

/-- The place of a member of a record beside which a kind may be named. -/
def member : Role → Option Kind → String → Role
  | schema,               _,    "fields"          => fields
  | field,                kind, "validations"     => record kind
  | rules,                kind, "validations"     => record kind
  | record (some .array), _,    "itemValidations" => rules
  | _,                    _,    _                 => plain

/-- Whatever is read of the first node in its place is read of the second one. -/
def Keeps : Role → Node → Node → Prop
  | schema      => fun node node' => SchemaForge.Keeps (Schema.ofNode? node) (Schema.ofNode? node')
  | fields      => fun node node' =>
    SchemaForge.Keeps (Schema.fieldsOfNode? node) (Schema.fieldsOfNode? node')
  | field       => fun node node' => SchemaForge.Keeps (Field.ofNode? node) (Field.ofNode? node')
  | record kind => fun node node' =>
    (∀ known, kind = some known →
      SchemaForge.Keeps (Rules.ofRecord? .buffered (Rules.ofNode? .buffered) known node)
        (Rules.ofRecord? .buffered (Rules.ofNode? .buffered) known node')) ∧
    (node.isReadable = true → node'.isReadable = true)
  | rules       => fun node node' =>
    SchemaForge.Keeps (Rules.ofNode? .buffered node) (Rules.ofNode? .buffered node') ∧
    node.isNull .buffered = node'.isNull .buffered ∧
    (node.isReadable = true → node'.isReadable = true)
  | plain       => PlainKeeps

@[refl] protected theorem Keeps.refl (role : Role) (node : Node) : role.Keeps node node := by
  cases role with
  | schema   => exact SchemaForge.Keeps.refl _
  | fields   => exact SchemaForge.Keeps.refl _
  | field    => exact SchemaForge.Keeps.refl _
  | record _ => exact ⟨fun _ _ => .refl _, id⟩
  | rules    => exact ⟨.refl _, rfl, id⟩
  | plain    => exact PlainKeeps.refl node

/-- A place inside a field, where everything has to have a meaning. -/
def IsHeldBack (role : Role) : Prop := role = plain ∨ role = rules ∨ ∃ kind, role = record kind

theorem Keeps.isReadable {role : Role} (hrole : role.IsHeldBack) {node node' : Node}
    (h : role.Keeps node node') : node.isReadable = true → node'.isReadable = true := by
  rcases hrole with rfl | rfl | ⟨kind, rfl⟩
  · exact PlainKeeps.isReadable h
  · exact h.2.2
  · exact h.2

theorem isHeldBack_plain : plain.IsHeldBack := Or.inl rfl

/-- What is inside a field is held back. -/
theorem isHeldBack_member {role : Role} (hrole : role = field ∨ role.IsHeldBack) (kind : Option Kind)
    (name : String) : (role.member kind name).IsHeldBack := by
  unfold member
  split
  · rcases hrole with h | h | h | ⟨_, h⟩ <;> exact nomatch h
  · exact Or.inr (Or.inr ⟨_, rfl⟩)
  · exact Or.inr (Or.inr ⟨_, rfl⟩)
  · exact Or.inr (Or.inl rfl)
  · exact isHeldBack_plain

end Role

/-! ## Members of records -/

/-- Each member is kept in its place. -/
def MembersKeep (role : Role) (kind : Option Kind) (members members' : Members) : Prop :=
  ∀ name, Option.Rel (role.member kind name).Keeps (members.lookup name) (members'.lookup name)

/-- The node has the members of a record whenever the other one has, and keeps each in its place. -/
def MembersKept (role : Role) (kind : Option Kind) (mode : Node.Mode) (names : List String)
    (node node' : Node) : Prop :=
  ∀ members, node.members? mode names = some members →
    ∃ members', node'.members? mode names = some members' ∧ MembersKeep role kind members members'

section Members

variable {α : Type} {members members' : Members} {name : String} {R : Node → Node → Prop}
  {read read' : Node → Option α}

theorem keeps_required (h : Option.Rel R (members.lookup name) (members'.lookup name))
    (hread : ∀ node node', R node node' → Keeps (read node) (read' node')) :
    Keeps (members.required? name read) (members'.required? name read') := by
  unfold Members.required?
  generalize members.lookup name = member at h ⊢
  generalize members'.lookup name = member' at h ⊢
  cases h with
  | none      => exact .none_left _
  | some hrel => exact hread _ _ hrel

theorem keeps_withDefault (h : Option.Rel R (members.lookup name) (members'.lookup name))
    (default : α) (hread : ∀ node node', R node node' → Keeps (read node) (read' node')) :
    Keeps (members.withDefault? name default read) (members'.withDefault? name default read') := by
  unfold Members.withDefault?
  generalize members.lookup name = member at h ⊢
  generalize members'.lookup name = member' at h ⊢
  cases h with
  | none      => exact .refl _
  | some hrel => exact hread _ _ hrel

theorem keeps_optional (mode : Node.Mode)
    (h : Option.Rel R (members.lookup name) (members'.lookup name))
    (hnull : ∀ node node', R node node' → node.isNull mode = node'.isNull mode)
    (hread : ∀ node node', R node node' → Keeps (read node) (read' node')) :
    Keeps (members.optional? mode name read) (members'.optional? mode name read') := by
  refine keeps_withDefault h none fun node node' hrel => ?_
  unfold Node.optional?
  rw [hnull node node' hrel]
  split
  · exact .refl _
  · exact (hread node node' hrel).map some

variable (mode : Node.Mode) (h : Option.Rel PlainKeeps (members.lookup name) (members'.lookup name))
include h

theorem keeps_flag : Keeps (members.flag? mode name) (members'.flag? mode name) :=
  keeps_withDefault h false fun _ _ hnode => hnode.bool mode

theorem keeps_text :
    Keeps (members.optional? mode name (Node.text? mode))
      (members'.optional? mode name (Node.text? mode)) :=
  keeps_optional mode h (fun _ _ hnode => hnode.isNull mode) fun _ _ hnode => hnode.text mode

theorem keeps_count :
    Keeps (members.optional? mode name (Node.count? mode))
      (members'.optional? mode name (Node.count? mode)) :=
  keeps_optional mode h (fun _ _ hnode => hnode.isNull mode) fun _ _ hnode => hnode.count mode

theorem keeps_number :
    Keeps (members.optional? mode name (Node.number? mode))
      (members'.optional? mode name (Node.number? mode)) :=
  keeps_optional mode h (fun _ _ hnode => hnode.isNull mode) fun _ _ hnode => hnode.number mode

theorem keeps_kind :
    Keeps (members.required? name (Kind.ofNode? .buffered))
      (members'.required? name (Kind.ofNode? .buffered)) :=
  keeps_required h fun _ _ hnode => hnode.kind

end Members

/-- What is read of the members of a record is kept. -/
theorem MembersKept.bind {α : Type} {role : Role} {kind : Option Kind} {mode : Node.Mode}
    {names : List String} {node node' : Node} {read read' : Members → Option α}
    (h : MembersKept role kind mode names node node')
    (hread : ∀ members members', node.members? mode names = some members →
      MembersKeep role kind members members' → Keeps (read members) (read' members')) :
    Keeps ((node.members? mode names).bind read) ((node'.members? mode names).bind read') := by
  intro result hresult
  obtain ⟨members, hmembers, hresult⟩ := Option.bind_eq_some_iff.mp hresult
  obtain ⟨members', hmembers', hkeep⟩ := h members hmembers
  rw [hmembers']
  exact hread members members' hmembers hkeep result hresult

/-! ## Rule records -/

section Records

variable {kind : Option Kind} {members members' : Members}

theorem StringRules.keeps_ofMembers (h : MembersKeep (.record (some .string)) kind members members') :
    Keeps (ofMembers? .buffered members) (ofMembers? .buffered members') := by
  unfold ofMembers?
  exact (keeps_count _ (h "min")).bind fun _ _ => (keeps_count _ (h "max")).bind fun _ _ =>
    (keeps_count _ (h "length")).bind fun _ _ => (keeps_flag _ (h "email")).bind fun _ _ =>
    (keeps_flag _ (h "url")).bind fun _ _ => (keeps_flag _ (h "uuid")).bind fun _ _ =>
    (keeps_flag _ (h "cuid")).bind fun _ _ => (keeps_text _ (h "regex")).bind fun _ _ =>
    (keeps_text _ (h "startsWith")).bind fun _ _ => (keeps_text _ (h "endsWith")).bind fun _ _ =>
    (keeps_text _ (h "includes")).bind fun _ _ => (keeps_flag _ (h "trim")).bind fun _ _ =>
    (keeps_flag _ (h "toLowerCase")).bind fun _ _ =>
    (keeps_flag _ (h "toUpperCase")).bind fun _ _ => .refl _

theorem NumberRules.keeps_ofMembers (h : MembersKeep (.record (some .number)) kind members members') :
    Keeps (ofMembers? .buffered members) (ofMembers? .buffered members') := by
  unfold ofMembers?
  exact (keeps_number _ (h "min")).bind fun _ _ => (keeps_number _ (h "max")).bind fun _ _ =>
    (keeps_flag _ (h "int")).bind fun _ _ => (keeps_flag _ (h "positive")).bind fun _ _ =>
    (keeps_flag _ (h "negative")).bind fun _ _ => (keeps_flag _ (h "nonpositive")).bind fun _ _ =>
    (keeps_flag _ (h "nonnegative")).bind fun _ _ =>
    (keeps_number _ (h "multipleOf")).bind fun _ _ =>
    (keeps_flag _ (h "finite")).bind fun _ _ => .refl _

theorem DateRules.keeps_ofMembers (h : MembersKeep (.record (some .date)) kind members members') :
    Keeps (ofMembers? .buffered members) (ofMembers? .buffered members') := by
  unfold ofMembers?
  exact (keeps_text _ (h "min")).bind fun _ _ => (keeps_text _ (h "max")).bind fun _ _ => .refl _

theorem EnumRules.keeps_ofMembers (h : MembersKeep (.record (some .enum)) kind members members') :
    Keeps (ofMembers? .buffered members) (ofMembers? .buffered members') := by
  unfold ofMembers?
  exact (keeps_withDefault (h "values") _ fun _ _ hnode => PlainKeeps.texts hnode).bind
    fun _ _ => .refl _

theorem ArrayRules.keeps_ofMembers (h : MembersKeep (.record (some .array)) kind members members') :
    Keeps (ofMembers? .buffered members) (ofMembers? .buffered members') := by
  unfold ofMembers?
  exact (keeps_count _ (h "min")).bind fun _ _ => (keeps_count _ (h "max")).bind fun _ _ =>
    (keeps_count _ (h "length")).bind fun _ _ => (keeps_flag _ (h "nonempty")).bind fun _ _ =>
    (keeps_withDefault (h "itemType") _ fun _ _ hnode => PlainKeeps.kind hnode).bind
      fun _ _ => .refl _

/-- **A rule record is kept if its members are.** -/
theorem Rules.keeps_ofRecord {known : Kind} {node node' : Node}
    (h : MembersKept (.record (some known)) kind .buffered known.memberNames node node') :
    Keeps (ofRecord? .buffered (ofNode? .buffered) known node)
      (ofRecord? .buffered (ofNode? .buffered) known node') := by
  cases known with
  | string  => exact h.bind fun _ _ _ hm => (StringRules.keeps_ofMembers hm).bind fun _ _ => .refl _
  | number  => exact h.bind fun _ _ _ hm => (NumberRules.keeps_ofMembers hm).bind fun _ _ => .refl _
  | boolean => exact h.bind fun _ _ _ _ => .refl _
  | date    => exact h.bind fun _ _ _ hm => (DateRules.keeps_ofMembers hm).bind fun _ _ => .refl _
  | enum    => exact h.bind fun _ _ _ hm => (EnumRules.keeps_ofMembers hm).bind fun _ _ => .refl _
  | array   =>
      refine h.bind fun _ _ _ hm => (ArrayRules.keeps_ofMembers hm).bind fun _ _ => ?_
      have hitem := keeps_optional .buffered (hm "itemValidations") (fun _ _ hnode => hnode.2.1)
        fun _ _ hnode => hnode.1
      exact hitem.bind fun _ _ => .refl _

end Records

/-! ## Rules, fields and schemas -/

section Places

variable {kind : Option Kind} {node node' : Node}

/-- The kind is the one that the members of the record name. -/
def NamesKind (kind : Option Kind) (mode : Node.Mode) (names : List String) (node : Node) : Prop :=
  ∀ members known, node.members? mode names = some members →
    members.required? "type" (Kind.ofNode? .buffered) = some known → kind = some known

/-- **The rules of elements are kept if their members are.** -/
theorem Rules.keeps_ofNode (hkind : NamesKind kind .buffered memberNames node)
    (h : MembersKept .rules kind .buffered memberNames node node') :
    Keeps (ofNode? .buffered node) (ofNode? .buffered node') := by
  rw [ofNode?_eq, ofNode?_eq]
  refine h.bind fun members _ hmembers hm => (keeps_kind (hm "type")).bind fun known hknown => ?_
  have hsome := hkind members known hmembers hknown
  exact keeps_required (hm "validations") fun _ _ hrecord => hrecord.1 known hsome

/-- **A field is kept if its members are**, and what is held back is as readable. -/
theorem Field.keeps_ofNode {entries entries' : List (Node × Node)}
    (hkind : NamesKind kind .direct (directNames ++ Rules.memberNames) (.table entries))
    (h : MembersKept .field kind .direct (directNames ++ Rules.memberNames) (.table entries)
      (.table entries'))
    (hreadable : restReadable entries = true → restReadable entries' = true) :
    Keeps (ofNode? (.table entries)) (ofNode? (.table entries')) := by
  simp only [ofNode?, Option.bind_eq_bind]
  refine h.bind fun members _ hmembers hm => (keeps_kind (hm "type")).bind fun known hknown => ?_
  have hsome := hkind members known hmembers hknown
  cases hrest : restReadable entries with
  | false => exact .none_left _
  | true =>
      rw [hreadable hrest]
      exact (keeps_required (hm "name") fun _ _ hnode => PlainKeeps.text hnode _).bind fun _ _ =>
        (keeps_required (hm "required") fun _ _ hnode => PlainKeeps.bool hnode _).bind fun _ _ =>
        (keeps_required (hm "nullable") fun _ _ hnode => PlainKeeps.bool hnode _).bind fun _ _ =>
        (keeps_text _ (hm "defaultValue")).bind fun _ _ =>
        (keeps_text _ (hm "description")).bind fun _ _ =>
        (keeps_required (hm "validations") fun _ _ hrecord => hrecord.1 known hsome).bind
          fun _ _ => .refl _

/-- **A schema is kept if its members are.** -/
theorem Schema.keeps_ofNode
    (h : MembersKept .schema kind .direct ["name", "description", "fields"] node node') :
    Keeps (ofNode? node) (ofNode? node') := by
  unfold ofNode?
  exact h.bind fun _ _ _ hm =>
    (keeps_required (hm "name") fun _ _ hnode => PlainKeeps.text hnode _).bind fun _ _ =>
    (keeps_text _ (hm "description")).bind fun _ _ =>
    (keeps_withDefault (hm "fields") _ fun _ _ hfields => hfields).bind fun _ _ => .refl _

end Places

end SchemaForge
