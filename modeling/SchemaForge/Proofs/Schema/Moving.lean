import SchemaForge.Proofs.Schema.Editing

/-!
# `Proofs.Schema.Moving` — moving a field is exact, and can be taken back

To move a field is to take it out of its place and to put it in at another one. Taking it out shifts every field
behind it, so a move towards the end and a move towards the front shift different fields; what both keep is the
list without the moved field. So two moves of one field in a row are one move, and all else follows from this:
moving it back restores the schema, and a move over several places is a walk of moves by one.

Both halves of a move need a place that is there. The move that fails where one is not never fails, since it
looks at the places first.

## Contents
- **Lists.** `moveElement_of_length_le` and `moveElement_of_lt`: a move that does nothing, and the two halves of
  one that does something; `moveElement_moveElement`: two moves of one element are one.
- **Failing.** `takeAt?`, `putAt?` and `moveElement?`; `moveElement?_eq_some`: a move does not fail.
- **Walks.** `move_move` and `move_back`, of the fields of a schema; `stepwise` and `edit_stepwise`: a walk of moves
  by one is a move.
- **The whole.** `move_exact`.
-/

namespace SchemaForge

/-! ## Lists -/

section Lists

variable {α : Type} {list : List α} {source middle target : Nat}

theorem length_moveElement (list : List α) (source target : Nat) :
    (moveElement list source target).length = list.length :=
  (moveElement_perm list source target).length_eq

theorem moveElement_of_length_le (h : list.length ≤ source ∨ list.length ≤ target) :
    moveElement list source target = list := by
  unfold moveElement
  split
  · rfl
  · next element helement =>
      obtain ⟨hsource, _⟩ := List.getElem?_eq_some_iff.mp helement
      rw [if_neg (by omega)]

/-- The element is taken out of its place, and put in at the other. -/
theorem moveElement_of_lt (hsource : source < list.length) (htarget : target < list.length) :
    moveElement list source target = (list.eraseIdx source).insertIdx target list[source] := by
  unfold moveElement
  rw [List.getElem?_eq_getElem hsource]
  exact if_pos htarget

/-- Without one element, a list still has room at every place that it had. -/
theorem le_length_eraseIdx (hsource : source < list.length) (htarget : target < list.length) :
    target ≤ (list.eraseIdx source).length := by
  rw [List.length_eraseIdx_of_lt hsource]
  omega

theorem moveElement_self (list : List α) (place : Nat) : moveElement list place place = list := by
  by_cases h : place < list.length
  · rw [moveElement_of_lt h h, List.insertIdx_eraseIdx_getElem h]
  · exact moveElement_of_length_le (.inl (Nat.le_of_not_lt h))

/-- The moved element is at its new place. -/
theorem getElem?_moveElement (hsource : source < list.length) (htarget : target < list.length) :
    (moveElement list source target)[target]? = list[source]? := by
  rw [moveElement_of_lt hsource htarget, List.getElem?_insertIdx_self,
    if_pos (le_length_eraseIdx hsource htarget), List.getElem?_eq_getElem hsource]

/-- The others are in the order that they had. -/
theorem eraseIdx_moveElement (hsource : source < list.length) (htarget : target < list.length) :
    (moveElement list source target).eraseIdx target = list.eraseIdx source := by
  rw [moveElement_of_lt hsource htarget, List.eraseIdx_insertIdx_self]

/-- **Two moves of one element are one move.** -/
theorem moveElement_moveElement (hsource : source < list.length) (hmiddle : middle < list.length)
    (htarget : target < list.length) :
    moveElement (moveElement list source middle) middle target = moveElement list source target := by
  have hlength := length_moveElement list source middle
  have hmiddle' : middle < (moveElement list source middle).length := by omega
  have htarget' : target < (moveElement list source middle).length := by omega
  -- what is taken out again is the element that was put in, from the list that it was put into
  have helement : (moveElement list source middle)[middle] = list[source] := by
    have h := getElem?_moveElement hsource hmiddle
    rwa [List.getElem?_eq_getElem hmiddle', List.getElem?_eq_getElem hsource, Option.some_inj] at h
  rw [moveElement_of_lt hmiddle' htarget', eraseIdx_moveElement hsource hmiddle, helement,
    moveElement_of_lt hsource htarget]

/-- **A move is taken back by the move from the new place to the old one.** -/
theorem moveElement_back (list : List α) (source target : Nat) :
    moveElement (moveElement list source target) target source = list := by
  by_cases h : source < list.length ∧ target < list.length
  · rw [moveElement_moveElement h.1 h.2 h.1, moveElement_self]
  · have hnone : list.length ≤ source ∨ list.length ≤ target := by omega
    rw [moveElement_of_length_le hnone, moveElement_of_length_le hnone.symm]

/-! ## Failing -/

/-- Takes out the element at a place, which has to be there. -/
def takeAt? (list : List α) (place : Nat) : Option (α × List α) :=
  list[place]?.map fun element => (element, list.eraseIdx place)

/-- Puts in an element at a place, which may be the end of the list and not behind it. -/
def putAt? (list : List α) (place : Nat) (element : α) : Option (List α) :=
  if place ≤ list.length then some (list.insertIdx place element) else none

/-- A move whose two halves fail where there is no such place. -/
def moveElement? (list : List α) (source target : Nat) : Option (List α) :=
  if list.length ≤ source ∨ list.length ≤ target then some list
  else do
    let (element, others) ← takeAt? list source
    putAt? others target element

/-- **A move does not fail**: it looks at both places first, and taking out the element leaves room for it at
    every place that there was. -/
theorem moveElement?_eq_some (list : List α) (source target : Nat) :
    moveElement? list source target = some (moveElement list source target) := by
  unfold moveElement?
  by_cases h : list.length ≤ source ∨ list.length ≤ target
  · rw [if_pos h, moveElement_of_length_le h]
  · have hsource : source < list.length := by omega
    have htarget : target < list.length := by omega
    have htake : takeAt? list source = some (list[source], list.eraseIdx source) := by
      unfold takeAt?
      rw [List.getElem?_eq_getElem hsource, Option.map_some]
    rw [if_neg h, htake, moveElement_of_lt hsource htarget]
    exact if_pos (le_length_eraseIdx hsource htarget)

end Lists

namespace Schema

/-! ## Walks -/

theorem length_move (schema : Schema) (source target : Nat) :
    (schema.move source target).fields.length = schema.fields.length :=
  length_moveElement schema.fields source target

theorem move_of_length_le {schema : Schema} {source target : Nat}
    (h : schema.fields.length ≤ source ∨ schema.fields.length ≤ target) :
    schema.move source target = schema := by
  unfold move
  rw [moveElement_of_length_le h]

theorem move_self (schema : Schema) (place : Nat) : schema.move place place = schema := by
  unfold move
  rw [moveElement_self]

theorem move_move {schema : Schema} {source middle target : Nat} (hsource : source < schema.fields.length)
    (hmiddle : middle < schema.fields.length) (htarget : target < schema.fields.length) :
    (schema.move source middle).move middle target = schema.move source target := by
  unfold move
  rw [moveElement_moveElement hsource hmiddle htarget]

theorem move_back (schema : Schema) (source target : Nat) :
    (schema.move source target).move target source = schema := by
  unfold move
  rw [moveElement_back]

/-- The moves by one place that lead from a place to another. -/
def stepwise (source target : Nat) : List Edit :=
  if source < target then .move source (source + 1) :: stepwise (source + 1) target
  else if target < source then .move source (source - 1) :: stepwise (source - 1) target
  else []
termination_by (target - source) + (source - target)

theorem edit_cons_move (schema : Schema) (source target : Nat) (calls : List Edit) :
    (schema.edit (.move source target :: calls)).2 = ((schema.move source target).edit calls).2 := rfl

/-- **A walk of moves by one is a move**, in either direction. -/
theorem edit_stepwise {schema : Schema} {source target : Nat} (hsource : source < schema.fields.length)
    (htarget : target < schema.fields.length) :
    (schema.edit (stepwise source target)).2 = schema.move source target := by
  -- the recursion of `stepwise`: a step towards the end, a step towards the front, and the end of the walk
  fun_induction stepwise source target generalizing schema with
  | case1 source hlt ih =>
      have hnext : source + 1 < schema.fields.length := by omega
      rw [edit_cons_move, ih (by rwa [length_move]) (by rwa [length_move]),
        move_move hsource hnext htarget]
  | case2 source _ hlt ih =>
      have hnext : source - 1 < schema.fields.length := by omega
      rw [edit_cons_move, ih (by rwa [length_move]) (by rwa [length_move]),
        move_move hsource hnext htarget]
  | case3 source hle hge =>
      have hplace : source = target := by omega
      subst hplace
      rw [move_self]
      rfl

/-- Two places towards the front. -/
example : stepwise 3 1 = [.move 3 2, .move 2 1] := by cbv

/-! ## The whole -/

/-- **A move is exact, and can be taken back.** It never fails. Where one of the two places is not there, the
    schema stays as it is; otherwise the field is at its new place, the others are in the order that they had, and
    the moves by one that lead from the old place to the new one do the same. The move from the new place to the
    old one restores the schema, and a move from a place to itself changes nothing. -/
theorem move_exact (schema : Schema) (source target : Nat) :
    let count := schema.fields.length
    let moved := schema.move source target
    moveElement? schema.fields source target = some moved.fields ∧
    (count ≤ source ∨ count ≤ target → moved = schema) ∧
    (source < count → target < count →
      moved.fields[target]? = schema.fields[source]? ∧
      moved.fields.eraseIdx target = schema.fields.eraseIdx source ∧
      moved.name = schema.name ∧
      moved.description = schema.description ∧
      (schema.edit (stepwise source target)).2 = moved) ∧
    moved.move target source = schema ∧
    ∀ place, schema.move place place = schema := by
  intro count moved
  refine ⟨moveElement?_eq_some schema.fields source target, move_of_length_le, ?_,
    schema.move_back source target, schema.move_self⟩
  intro hsource htarget
  exact ⟨getElem?_moveElement hsource htarget, eraseIdx_moveElement hsource htarget, rfl, rfl,
    edit_stepwise hsource htarget⟩

/-- The first of three fields to the end and back, and to a place that is not there. -/
theorem move_exact_threeFields :
    let schema : Schema :=
      { name := "S"
        fields := [{ name := "a", rules := .boolean }, { name := "b", rules := .boolean },
          { name := "c", rules := .boolean }] }
    let moved := schema.move 0 2
    moved.fields.map Field.name = ["b", "c", "a"] ∧
    0 < schema.fields.length ∧ 2 < schema.fields.length ∧
    moved.fields.eraseIdx 2 = schema.fields.eraseIdx 0 ∧
    (schema.edit (stepwise 0 2)).2 = moved ∧
    moved.move 2 0 = schema ∧
    schema.fields.length ≤ 7 ∧ schema.move 1 7 = schema := by
  intro schema moved
  obtain ⟨_, _, hmoved, hback, _⟩ := schema.move_exact 0 2
  obtain ⟨_, hothers, _, _, hwalk⟩ := hmoved (by decide) (by decide)
  have hnowhere := (schema.move_exact 1 7).2.1 (.inr (by decide))
  exact ⟨by decide, by decide, by decide, hothers, hwalk, hback, by decide, hnowhere⟩

end Schema

end SchemaForge
