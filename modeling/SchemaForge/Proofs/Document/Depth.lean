import SchemaForge.Document.Codec
import SchemaForge.Proofs.Document.Member

/-!
# `Proofs.Document.Depth` — rules without a bound on their depth

The rules of elements are read with a bound on how many levels of them may follow. Every member of a
record is nested less deeply than the record, so a bound above the height of a node is never met, and
the rules of a node satisfy the recursion of the reader with no bound in it.

## Contents
- **Heights.** `height_lt_of_lookup`.
- **Rules.** `Rules.ofNodeWithin?_eq`, and the recursion `Rules.ofNode?_eq`.
-/

namespace SchemaForge

open Document

namespace Document.Node

variable {mode : Mode} {names : List String} {members : Members} {name : String}

/-! ## Heights -/

theorem mem_of_lookup {node : Node} (h : members.lookup name = some node) :
    (name, node) ∈ members := by
  obtain ⟨front, back, rfl, -⟩ := List.lookup_eq_some_iff.mp h
  exact List.mem_append_right _ List.mem_cons_self

/-- Every member of a record comes from an entry of its table. -/
theorem exists_entry_of_mem {entries : List (Node × Node)} {node : Node}
    (h : namedMembers? mode names entries = some members) (hmem : (name, node) ∈ members) :
    ∃ key, (key, node) ∈ entries := by
  induction entries generalizing members with
  | nil =>
      obtain rfl := Option.some.inj h
      exact absurd hmem List.not_mem_nil
  | cons entry entries ih =>
      obtain ⟨key, value⟩ := entry
      rw [namedMembers?] at h
      simp only [Option.bind_eq_bind, Option.bind_eq_some_iff] at h
      obtain ⟨member, -, others, hothers, h⟩ := h
      have hrest : (name, node) ∈ others → ∃ key', (key', node) ∈ (key, value) :: entries :=
        fun hmem => (ih hothers hmem).imp fun _ => List.mem_cons_of_mem _
      cases member with
      | none =>
          obtain rfl := Option.some.inj h
          exact hrest hmem
      | some known =>
          dsimp only at h
          split at h
          · exact absurd h (by simp)
          · obtain rfl := Option.some.inj h
            rcases List.mem_cons.mp hmem with heq | hmem
            · rw [(Prod.mk.inj heq).2]
              exact ⟨key, List.mem_cons_self⟩
            · exact hrest hmem

/-- **A member is nested less deeply than its record.** -/
theorem height_lt_of_lookup {record node : Node} (h : record.members? mode names = some members)
    (hlookup : members.lookup name = some node) : node.height < record.height := by
  have hmem := mem_of_lookup hlookup
  cases record with
  | scalar _      => exact nomatch h
  | written _ _ _ => exact nomatch h
  | table entries =>
      obtain ⟨key, hentry⟩ := exists_entry_of_mem h hmem
      rw [height]
      exact Nat.lt_succ_of_le (height_le_entriesHeight hentry)
  | list items =>
      rw [members?] at h
      split at h
      · obtain rfl := Option.some.inj h
        rw [height]
        exact Nat.lt_succ_of_le (height_le_itemsHeight (List.of_mem_zip hmem).2)
      · exact nomatch h

end Document.Node

/-! ## Rules -/

namespace Rules

variable {mode : Node.Mode}

/-- A record depends on how the nodes inside it are read, and on no other nodes. -/
theorem ofRecord?_congr {readItem readItem' : Node → Option Rules} (kind : Kind) {record : Node}
    (h : ∀ item : Node, item.height < record.height → readItem item = readItem' item) :
    ofRecord? mode readItem kind record = ofRecord? mode readItem' kind record := by
  cases kind with
  | array =>
      unfold ofRecord?
      refine Option.bind_congr fun members hmembers => ?_
      have hitem : members.optional? mode "itemValidations" readItem
          = members.optional? mode "itemValidations" readItem' := by
        unfold Members.optional? Members.withDefault?
        split
        · next node hlookup =>
            unfold Node.optional?
            rw [h node (Node.height_lt_of_lookup hmembers hlookup)]
        · rfl
      rw [hitem]
  | string  => rfl
  | number  => rfl
  | boolean => rfl
  | date    => rfl
  | enum    => rfl

/-- **Bounds above the height of a node make no difference.** -/
theorem ofNodeWithin?_eq {depth depth' : Nat} {node : Node} (h : node.height < depth)
    (h' : node.height < depth') : ofNodeWithin? mode depth node = ofNodeWithin? mode depth' node := by
  induction depth generalizing depth' node with
  | zero => exact absurd h (Nat.not_lt_zero _)
  | succ depth ih =>
      obtain ⟨depth', rfl⟩ : ∃ n, depth' = n + 1 := ⟨depth' - 1, by omega⟩
      rw [ofNodeWithin?, ofNodeWithin?]
      refine Option.bind_congr fun members hmembers => Option.bind_congr fun kind _ => ?_
      unfold Members.required?
      refine Option.bind_congr fun record hlookup => ?_
      have hrecord := Node.height_lt_of_lookup hmembers hlookup
      exact ofRecord?_congr kind fun item hitem => ih (by omega) (by omega)

/-- **The rules of a node** are its kind and the record of that kind, whose elements' rules are read in
    the same way. -/
theorem ofNode?_eq (node : Node) :
    ofNode? mode node = (node.members? mode memberNames).bind fun members =>
      (members.required? "type" (Kind.ofNode? mode)).bind fun kind =>
        members.required? "validations" (ofRecord? mode (ofNode? mode) kind) := by
  rw [ofNode?, ofNodeWithin?]
  refine Option.bind_congr fun members hmembers => Option.bind_congr fun kind _ => ?_
  unfold Members.required?
  refine Option.bind_congr fun record hlookup => ?_
  have hrecord := Node.height_lt_of_lookup hmembers hlookup
  exact ofRecord?_congr kind fun item hitem => ofNodeWithin?_eq (by omega) (Nat.lt_succ_self _)

end Rules

end SchemaForge
