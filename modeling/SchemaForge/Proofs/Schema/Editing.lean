import Mathlib.Data.List.Perm.Basic
import SchemaForge.Schema

/-!
# `Proofs.Schema.Editing` — what a session of edits keeps of the fields

A session calls the editing operations of a schema one after the other: fields are added, taken out by name,
moved, and looked up. Taking out a field answers the first one of its name, which is the one that looking it
up would find, and leaves the others in their order; moving one changes its place only. So no field is lost and
none is doubled: at the end, the fields of the schema and those that were taken out are the fields of the
start and those that were added. Taking out a name again and again gives all fields of that name in their
order.

## Contents
- **Lists.** `takeFirst?_eq`, `eraseP_append_find?_perm` and `moveElement_perm`.
- **Sessions.** `Edit`, `Edit.perform` and `Schema.edit`; `edit_append`.
- **Steps.** `perform_remove`, and `Edit.perform_perm`: what one call keeps.
- **Runs.** `edit_perm`: what a session keeps.
- **Emptying.** `edit_replicate_remove`: taking out a name until nothing is found.
- **The whole.** `edit_keeps_fields`.
-/

namespace SchemaForge

/-! ## Lists -/

section Lists

variable {α : Type}

/-- Taking out the first element that passes a test gives the one that is found first, and leaves the list
    without it. -/
theorem takeFirst?_eq (test : α → Bool) (list : List α) :
    takeFirst? test list = (list.find? test).map fun found => (found, list.eraseP test) := by
  induction list with
  | nil => rfl
  | cons x rest ih =>
      by_cases hx : test x = true
      · rw [takeFirst?, if_pos hx, List.find?_cons_of_pos hx, List.eraseP_cons_of_pos hx, Option.map_some]
      · rw [takeFirst?, if_neg hx, List.find?_cons_of_neg hx, List.eraseP_cons_of_neg hx, ih,
          Option.map_map]
        rfl

/-- What is found first and the list without it are the elements of the list. -/
theorem eraseP_append_find?_perm (test : α → Bool) (list : List α) :
    (list.eraseP test ++ (list.find? test).toList).Perm list := by
  induction list with
  | nil => exact List.Perm.refl []
  | cons x rest ih =>
      by_cases hx : test x = true
      · rw [List.find?_cons_of_pos hx, List.eraseP_cons_of_pos hx]
        exact List.perm_append_singleton x rest
      · rw [List.find?_cons_of_neg hx, List.eraseP_cons_of_neg hx]
        exact ih.cons x

/-- Moving an element keeps all elements. -/
theorem moveElement_perm (list : List α) (source target : Nat) :
    (moveElement list source target).Perm list := by
  unfold moveElement
  split
  · exact List.Perm.refl list
  · next element helement =>
      split
      · next htarget =>
          obtain ⟨hsource, rfl⟩ := List.getElem?_eq_some_iff.mp helement
          have hplace : target ≤ (list.eraseIdx source).length := by
            rw [List.length_eraseIdx_of_lt hsource]
            omega
          exact (List.perm_insertIdx _ _ hplace).trans (List.getElem_cons_eraseIdx_perm hsource)
      · exact List.Perm.refl list

/-- Without the first element that passes a test, the elements that pass it are the others. -/
theorem filter_eraseP (test : α → Bool) (list : List α) :
    (list.eraseP test).filter test = (list.filter test).tail := by
  induction list with
  | nil => rfl
  | cons x rest ih =>
      by_cases hx : test x = true
      · rw [List.eraseP_cons_of_pos hx, List.filter_cons_of_pos hx, List.tail_cons]
      · rw [List.eraseP_cons_of_neg hx, List.filter_cons_of_neg hx, List.filter_cons_of_neg hx, ih]

/-- The elements that do not pass a test are left when one that passes it is taken out. -/
theorem filter_not_eraseP (test : α → Bool) (list : List α) :
    ((list.eraseP test).filter fun x => !test x) = list.filter fun x => !test x := by
  induction list with
  | nil => rfl
  | cons x rest ih =>
      by_cases hx : test x = true
      · rw [List.eraseP_cons_of_pos hx, List.filter_cons_of_neg (by simp [hx])]
      · rw [List.eraseP_cons_of_neg hx, List.filter_cons_of_pos (by simp [hx]),
          List.filter_cons_of_pos (by simp [hx]), ih]

end Lists

/-! ## Sessions -/

/-- A call in a session of edits. -/
inductive Edit where
  | add (field : Field)
  | remove (name : String)
  | move (source target : Nat)
  | find (name : String)

namespace Edit

/-- What a call answers, and the schema that it leaves. -/
def perform (schema : Schema) : Edit → Option Field × Schema
  | add field          => (none, schema.add field)
  | remove name        =>
    match schema.remove? name with
    | some (field, rest) => (some field, rest)
    | none               => (none, schema)
  | move source target => (none, schema.move source target)
  | find name          => (schema.field? name, schema)

/-- The field that a call adds. -/
def added? : Edit → Option Field
  | add field => some field
  | _         => none

/-- The field that a call takes out, by what it answers. -/
def removed? : Edit → Option Field → Option Field
  | remove _, answer => answer
  | _,        _      => none

end Edit

/-- What the calls of a session answer, and the schema at its end. -/
def Schema.edit (schema : Schema) : List Edit → List (Option Field) × Schema
  | []            => ([], schema)
  | call :: calls =>
    let (answer, next) := call.perform schema
    let (answers, last) := next.edit calls
    (answer :: answers, last)

/-- The fields that a session adds. -/
def addedFields (calls : List Edit) : List Field := calls.filterMap Edit.added?

/-- The fields that a session takes out, by what its calls answer. -/
def removedFields (calls : List Edit) (answers : List (Option Field)) : List Field :=
  (calls.zip answers).filterMap fun (call, answer) => call.removed? answer

theorem addedFields_cons (call : Edit) (calls : List Edit) :
    addedFields (call :: calls) = call.added?.toList ++ addedFields calls := by
  unfold addedFields
  cases h : call.added? <;> simp [h]

theorem removedFields_cons (call : Edit) (calls : List Edit) (answer : Option Field)
    (answers : List (Option Field)) :
    removedFields (call :: calls) (answer :: answers)
      = (call.removed? answer).toList ++ removedFields calls answers := by
  unfold removedFields
  cases h : call.removed? answer <;> simp [h]

namespace Schema

theorem edit_cons (schema : Schema) (call : Edit) (calls : List Edit) :
    schema.edit (call :: calls)
      = ((call.perform schema).1 :: ((call.perform schema).2.edit calls).1,
          ((call.perform schema).2.edit calls).2) := rfl

/-- A session goes on from where it is. -/
theorem edit_append (schema : Schema) (before after : List Edit) :
    schema.edit (before ++ after)
      = ((schema.edit before).1 ++ ((schema.edit before).2.edit after).1,
          ((schema.edit before).2.edit after).2) := by
  induction before generalizing schema with
  | nil => rfl
  | cons call before ih => rw [List.cons_append, edit_cons, edit_cons, ih, List.cons_append]

/-- Every call has its answer. -/
theorem length_edit (schema : Schema) (calls : List Edit) :
    (schema.edit calls).1.length = calls.length := by
  induction calls generalizing schema with
  | nil => rfl
  | cons call calls ih => rw [edit_cons, List.length_cons, List.length_cons, ih]

/-- A call answers by the schema that the calls before it have left. -/
theorem getElem?_edit (schema : Schema) (before : List Edit) (call : Edit) (after : List Edit) :
    (schema.edit (before ++ call :: after)).1[before.length]?
      = some (call.perform (schema.edit before).2).1 := by
  rw [edit_append, edit_cons, ← length_edit schema before, List.getElem?_append_right (Nat.le_refl _),
    Nat.sub_self, List.getElem?_cons_zero]

end Schema

/-! ## Steps -/

/-- Taking out a field gives the one that looking it up finds, and the schema without it. -/
theorem Schema.remove?_eq (schema : Schema) (name : String) :
    schema.remove? name = (schema.field? name).map fun field =>
      (field, { schema with fields := schema.fields.eraseP fun field => field.name == name }) := by
  rw [Schema.remove?, takeFirst?_eq, Option.map_map]
  rfl

/-- **Taking out a field answers the one that looking it up finds**, and leaves the others in their order. -/
theorem Edit.perform_remove (schema : Schema) (name : String) :
    (Edit.remove name).perform schema
      = (schema.field? name,
          { schema with fields := schema.fields.eraseP fun field => field.name == name }) := by
  rw [Edit.perform, Schema.remove?_eq]
  cases hfind : schema.field? name with
  | some field => rfl
  | none       =>
      -- where no field has the name, the list without it is the list
      have hnone : schema.fields.eraseP (fun field => field.name == name) = schema.fields :=
        List.eraseP_of_forall_not (List.find?_eq_none.mp hfind)
      rw [hnone]
      rfl

/-- **A call loses no field and doubles none.** -/
theorem Edit.perform_perm (schema : Schema) (call : Edit) :
    ((call.perform schema).2.fields ++ (call.removed? (call.perform schema).1).toList).Perm
      (schema.fields ++ call.added?.toList) := by
  cases call with
  | add field =>
      show ((schema.fields ++ [field]) ++ []).Perm (schema.fields ++ [field])
      rw [List.append_nil]
  | remove name =>
      rw [perform_remove]
      show (schema.fields.eraseP _ ++ (schema.fields.find? _).toList).Perm (schema.fields ++ [])
      rw [List.append_nil]
      exact eraseP_append_find?_perm _ schema.fields
  | move source target =>
      show (moveElement schema.fields source target ++ []).Perm (schema.fields ++ [])
      rw [List.append_nil, List.append_nil]
      exact moveElement_perm schema.fields source target
  | find name => exact List.Perm.refl _

/-- A call changes the fields only. -/
theorem Edit.perform_frame (schema : Schema) (call : Edit) :
    (call.perform schema).2.name = schema.name ∧
      (call.perform schema).2.description = schema.description := by
  cases call with
  | add field          => exact ⟨rfl, rfl⟩
  | remove name        =>
      rw [perform_remove]
      exact ⟨rfl, rfl⟩
  | move source target => exact ⟨rfl, rfl⟩
  | find name          => exact ⟨rfl, rfl⟩

namespace Schema

open scoped List

/-! ## Runs -/

/-- **A session loses no field and doubles none.** -/
theorem edit_perm (schema : Schema) (calls : List Edit) :
    ((schema.edit calls).2.fields ++ removedFields calls (schema.edit calls).1).Perm
      (schema.fields ++ addedFields calls) := by
  induction calls generalizing schema with
  | nil => exact List.Perm.refl _
  | cons call calls ih =>
      have hstep := call.perform_perm schema
      have hrun := ih (call.perform schema).2
      rw [edit_cons, removedFields_cons, addedFields_cons]
      generalize (call.removed? (call.perform schema).1).toList = removed at hstep ⊢
      generalize (call.perform schema).2 = next at hstep hrun ⊢
      -- what this call takes out goes to the front, and back to the fields that it left
      calc (next.edit calls).2.fields ++ (removed ++ removedFields calls (next.edit calls).1)
        _ ~ removed ++ ((next.edit calls).2.fields ++ removedFields calls (next.edit calls).1) :=
            List.perm_append_comm_assoc _ _ _
        _ ~ removed ++ (next.fields ++ addedFields calls) := hrun.append_left removed
        _ = (removed ++ next.fields) ++ addedFields calls := (List.append_assoc _ _ _).symm
        _ ~ (schema.fields ++ call.added?.toList) ++ addedFields calls :=
            (List.perm_append_comm.trans hstep).append_right _
        _ = schema.fields ++ (call.added?.toList ++ addedFields calls) := List.append_assoc _ _ _

theorem edit_frame (schema : Schema) (calls : List Edit) :
    (schema.edit calls).2.name = schema.name ∧
      (schema.edit calls).2.description = schema.description := by
  induction calls generalizing schema with
  | nil => exact ⟨rfl, rfl⟩
  | cons call calls ih =>
      obtain ⟨hname, hdescription⟩ := call.perform_frame schema
      obtain ⟨hname', hdescription'⟩ := ih (call.perform schema).2
      exact ⟨hname'.trans hname, hdescription'.trans hdescription⟩

/-! ## Emptying -/

/-- **Taking out a name until nothing is found** answers all fields of the name in their order, and leaves the
    others in theirs. -/
theorem edit_replicate_remove {schema : Schema} {name : String} {named : List Field}
    (h : (schema.fields.filter fun field => field.name == name) = named) :
    schema.edit (List.replicate (named.length + 1) (.remove name))
      = (named.map some ++ [none],
          { schema with fields := schema.fields.filter fun field => !(field.name == name) }) := by
  -- induction on the fields of the name: each call takes out the first of them
  induction named generalizing schema with
  | nil =>
      have hfind : schema.field? name = none := by
        rw [field?, ← List.head?_filter, h, List.head?_nil]
      have hother : ∀ field ∈ schema.fields, ¬ (field.name == name) = true :=
        List.filter_eq_nil_iff.mp h
      have hkept : (schema.fields.filter fun field => !(field.name == name)) = schema.fields :=
        List.filter_eq_self.mpr fun field hfield => by simpa using hother field hfield
      rw [List.length_nil, List.replicate_succ, edit_cons, Edit.perform_remove, hfind,
        List.eraseP_of_forall_not hother, hkept]
      rfl
  | cons field named ih =>
      have hfind : schema.field? name = some field := by
        rw [field?, ← List.head?_filter, h, List.head?_cons]
      have hrest := filter_eraseP (fun field : Field => field.name == name) schema.fields
      rw [h, List.tail_cons] at hrest
      have hkept := filter_not_eraseP (fun field : Field => field.name == name) schema.fields
      rw [List.length_cons, List.replicate_succ, edit_cons, Edit.perform_remove, hfind, ih hrest, hkept]
      rfl

/-- A name that two of three fields have. -/
example :
    let schema : Schema :=
      { name := "S"
        fields := [{ name := "a", required := false, rules := .boolean }, { name := "b", rules := .boolean },
          { name := "a", rules := .boolean }] }
    (schema.edit (List.replicate 3 (.remove "a"))).1.map (Option.map Field.required)
      = [some false, some true, none] := by decide

/-! ## The whole -/

/-- **Editing loses no field and doubles none.** Whatever the calls of a session are, the fields at its end and
    those that it took out are, but for the order, those of the start and those that it added, and the name and
    the description stay. Taking out a name answers what looking it up would have answered at that point, and
    leaves the other fields in their order. Taking it out until nothing is found answers all fields of the name
    in the order of the schema, and leaves the others in theirs. -/
theorem edit_keeps_fields (schema : Schema) :
    (∀ calls : List Edit,
      ((schema.edit calls).2.fields ++ removedFields calls (schema.edit calls).1).Perm
        (schema.fields ++ addedFields calls) ∧
      (schema.edit calls).2.name = schema.name ∧
      (schema.edit calls).2.description = schema.description) ∧
    (∀ (before : List Edit) (name : String) (after : List Edit),
      let reached := (schema.edit before).2
      (schema.edit (before ++ .remove name :: after)).1[before.length]? = some (reached.field? name) ∧
      (schema.edit (before ++ [.remove name])).2
        = { reached with fields := reached.fields.eraseP fun field => field.name == name }) ∧
    ∀ name : String,
      let named := schema.fields.filter fun field => field.name == name
      schema.edit (List.replicate (named.length + 1) (.remove name))
        = (named.map some ++ [none],
            { schema with fields := schema.fields.filter fun field => !(field.name == name) }) := by
  refine ⟨fun calls => ⟨schema.edit_perm calls, schema.edit_frame calls⟩, ?_, ?_⟩
  · intro before name after reached
    constructor
    · rw [getElem?_edit, Edit.perform_remove]
    · rw [edit_append, edit_cons, Edit.perform_remove]
      rfl
  · intro name named
    exact edit_replicate_remove rfl

end Schema

end SchemaForge
