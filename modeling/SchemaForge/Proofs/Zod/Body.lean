import Mathlib.Data.List.Perm.Basic
import SchemaForge.Zod.Declaration

/-!
# `Proofs.Zod.Body` — the fields between the braces of a validator

A validator is a header, the blocks of the fields and a closing line. The block of a field is its comment, if
one is shown, and its name with its expression; it depends on the field and the settings alone. Between two
blocks stand a comma and a line feed, so that no comma follows the last one, however many fields there are
and whichever of them have a comment. Every field has its block exactly once and in the order of the schema.

## Contents
- **Parts.** `header`, `fieldBlock`, `body` and `closing`.
- **Lines.** `intercalate_fieldLines`, `intercalate_bodyLines` and `intercalate_headLines`: the lines of a
  part, joined.
- **Order.** `reorder`, the elements of a list at other places.
- **The whole.** `declaration_body`.
-/

namespace SchemaForge.Zod

/-! ## Parts -/

/-- The text before the first field, up to the brace and its line feed. -/
def header (schema : Schema) (settings : Settings) : String :=
  "import \x7b z \x7d from 'zod'" ++ settings.semicolon ++ "\n\n"
    ++ (match settings.schemaDoc schema with
        | some doc => "/**\n * " ++ doc ++ "\n */\n"
        | none     => "")
    ++ settings.exportWord ++ "const " ++ settings.schemaName schema ++ " = z.object(\x7b\n"

/-- The text of a field: its comment on a line of its own, if one is shown, and its name with its
    expression. -/
def fieldBlock (settings : Settings) (field : Field) : String :=
  (match settings.fieldDoc field with
    | some doc => "  /** " ++ doc ++ " */\n"
    | none     => "")
    ++ "  " ++ field.name ++ ": " ++ (ofField field).text

/-- The text of the fields: their blocks with a comma and a line feed between them. -/
def body (settings : Settings) (fields : List Field) : String :=
  ",\n".intercalate (fields.map (fieldBlock settings))

/-- The text behind the last field. -/
def closing (settings : Settings) (fields : List Field) : String :=
  (if fields = [] then "" else "\n") ++ "\x7d)" ++ settings.semicolon

/-! ## Lines -/

theorem intercalate_headLines (schema : Schema) (settings : Settings) :
    "\n".intercalate (headLines schema settings) ++ "\n" = header schema settings := by
  unfold headLines header
  cases settings.schemaDoc schema with
  | none => simp [Comment.block?, String.intercalate_cons_cons, ← String.toList_inj]
  | some doc => simp [Comment.block?, Comment.block, String.intercalate_cons_cons, ← String.toList_inj]

/-- The lines of a field are its block and what ends it. -/
theorem intercalate_fieldLines (settings : Settings) (field : Field) (ending : String) :
    "\n".intercalate (fieldLines settings field ending) = fieldBlock settings field ++ ending := by
  unfold fieldLines fieldBlock
  cases settings.fieldDoc field with
  | none => simp [Comment.member?]
  | some doc => simp [Comment.member?, String.intercalate_cons_cons, ← String.toList_inj]

theorem fieldLines_ne_nil (settings : Settings) (field : Field) (ending : String) :
    fieldLines settings field ending ≠ [] :=
  List.append_ne_nil_of_right_ne_nil _ (List.cons_ne_nil _ _)

theorem bodyLines_ne_nil (settings : Settings) {fields : List Field} (h : fields ≠ []) :
    bodyLines settings fields ≠ [] := by
  cases fields with
  | nil => exact absurd rfl h
  | cons field rest =>
      cases rest with
      | nil => exact fieldLines_ne_nil settings field ""
      | cons next rest => exact List.append_ne_nil_of_left_ne_nil (fieldLines_ne_nil settings field ",") _

/-- **The lines of the fields are their blocks with a comma and a line feed between them.** -/
theorem intercalate_bodyLines (settings : Settings) {fields : List Field} (h : fields ≠ []) :
    "\n".intercalate (bodyLines settings fields) = body settings fields := by
  -- the recursion of `bodyLines`: no field, the last field, and a field with others after it
  fun_induction bodyLines settings fields with
  | case1 => exact absurd rfl h
  | case2 field =>
      rw [intercalate_fieldLines, String.append_empty]
      exact String.intercalate_singleton.symm
  | case3 field next rest ih =>
      have hrest : next :: rest ≠ [] := List.cons_ne_nil next rest
      have hbody : body settings (field :: next :: rest)
          = fieldBlock settings field ++ ("," ++ "\n") ++ body settings (next :: rest) :=
        String.intercalate_cons_cons
      rw [String.intercalate_append_of_ne_nil (fieldLines_ne_nil settings field ",")
        (bodyLines_ne_nil settings hrest), intercalate_fieldLines, ih hrest, hbody,
        ← String.append_assoc]

/-- **The declaration is its header, the text of its fields and what closes it.** -/
theorem declaration_eq (schema : Schema) (settings : Settings) :
    declaration schema settings
      = header schema settings ++ body settings schema.fields ++ closing settings schema.fields := by
  have hhead : headLines schema settings ≠ [] := by simp [headLines]
  have hclose : ["\x7d)" ++ settings.semicolon] ≠ [] := List.cons_ne_nil _ _
  unfold declaration closing
  by_cases hfields : schema.fields = []
  · -- the closing line follows the brace at once
    rw [hfields, if_pos rfl, bodyLines, List.append_nil,
      String.intercalate_append_of_ne_nil hhead hclose, intercalate_headLines,
      String.intercalate_singleton]
    simp [body]
  · have hbody := bodyLines_ne_nil settings hfields
    rw [if_neg hfields, String.intercalate_append_of_ne_nil
        (List.append_ne_nil_of_left_ne_nil hhead _) hclose,
      String.intercalate_append_of_ne_nil hhead hbody, intercalate_headLines,
      intercalate_bodyLines settings hfields, String.intercalate_singleton]
    simp only [String.append_assoc]

/-! ## Order -/

/-- The elements of a list at some places, in the order of the places. -/
def reorder {α : Type} (list : List α) (places : List Nat) : List α :=
  places.filterMap (list[·]?)

theorem reorder_range {α : Type} (list : List α) : reorder list (List.range list.length) = list := by
  induction list with
  | nil => rfl
  | cons x list ih =>
      unfold reorder at ih ⊢
      have hfirst : (x :: list)[0]? = some x := rfl
      rw [List.length_cons, List.range_succ_eq_map, List.filterMap_cons, hfirst, List.filterMap_map]
      exact congrArg (x :: ·) ih

/-- At all places in another order stand the same elements. -/
theorem reorder_perm {α : Type} {list : List α} {places : List Nat}
    (h : places.Perm (List.range list.length)) : (reorder list places).Perm list := by
  have hperm : (reorder list places).Perm (reorder list (List.range list.length)) :=
    h.filterMap (list[·]?)
  rwa [reorder_range] at hperm

theorem map_reorder {α β : Type} (f : α → β) (list : List α) (places : List Nat) :
    (reorder list places).map f = reorder (list.map f) places := by
  unfold reorder
  rw [List.map_filterMap]
  simp only [List.getElem?_map]

/-- The closing line only asks whether there is a field. -/
theorem closing_of_perm (settings : Settings) {fields fields' : List Field} (h : fields'.Perm fields) :
    closing settings fields' = closing settings fields := by
  have hnil : fields' = [] ↔ fields = [] := by
    rw [← List.length_eq_zero_iff, h.length_eq, List.length_eq_zero_iff]
  unfold closing
  simp only [hnil]

/-! ## The whole -/

/-- **The declaration of a validator lists every field once, in order, with a comma and a line feed between
    two fields.** It is the header up to the brace, the blocks of the fields, and the closing line, which
    stands on a line of its own below the last field or the header. The text of two lists of fields that are
    not empty is the text of either with a comma and a line feed between them, and where the fields of a
    schema are reordered, the same blocks stand in that order and nothing else changes. -/
theorem declaration_body (settings : Settings) :
    (∀ schema : Schema, declaration schema settings
        = header schema settings ++ body settings schema.fields ++ closing settings schema.fields) ∧
    (∀ front back : List Field, front ≠ [] → back ≠ [] →
      body settings (front ++ back) = body settings front ++ ",\n" ++ body settings back) ∧
    ∀ (schema : Schema) (places : List Nat), places.Perm (List.range schema.fields.length) →
      declaration { schema with fields := reorder schema.fields places } settings
        = header schema settings
          ++ ",\n".intercalate (reorder (schema.fields.map (fieldBlock settings)) places)
          ++ closing settings schema.fields := by
  refine ⟨fun schema => declaration_eq schema settings, ?_, ?_⟩
  · intro front back hfront hback
    have hfront' : front.map (fieldBlock settings) ≠ [] := by simpa using hfront
    have hback' : back.map (fieldBlock settings) ≠ [] := by simpa using hback
    unfold body
    rw [List.map_append, String.intercalate_append_of_ne_nil hfront' hback']
  · intro schema places hplaces
    have hperm : (reorder schema.fields places).Perm schema.fields := reorder_perm hplaces
    have hheader : header { schema with fields := reorder schema.fields places } settings
        = header schema settings := rfl
    rw [declaration_eq, hheader, closing_of_perm settings hperm, body, map_reorder]

/-- Two fields change places, one of them with a comment. -/
theorem declaration_body_twoFields :
    let a : Field := { name := "a", description := some "First", rules := .string {} }
    let b : Field := { name := "b", required := false, rules := .boolean }
    let schema : Schema := { name := "Pair", fields := [a, b] }
    ([a] ≠ [] ∧ [b] ≠ [] ∧ body {} ([a] ++ [b]) = body {} [a] ++ ",\n" ++ body {} [b]) ∧
      [1, 0].Perm (List.range schema.fields.length) ∧
      declaration { schema with fields := reorder schema.fields [1, 0] } {}
        = "import \x7b z \x7d from 'zod';\n\nexport const PairSchema = z.object(\x7b\n"
          ++ "  b: z.boolean().optional(),\n  /** First */\n  a: z.string()\n\x7d);" := by
  intro a b schema
  have hfront : [a] ≠ [] := List.cons_ne_nil _ _
  have hback : [b] ≠ [] := List.cons_ne_nil _ _
  have hplaces : [1, 0].Perm (List.range schema.fields.length) := by decide
  refine ⟨⟨hfront, hback, (declaration_body {}).2.1 [a] [b] hfront hback⟩, hplaces, ?_⟩
  rw [(declaration_body {}).2.2 schema [1, 0] hplaces]
  decide

end SchemaForge.Zod
