import SchemaForge.Rules

/-!
# `SchemaForge.Field` — one named member of a schema

A field has a name, says whether it must be present and whether it may be null, and carries its
rules. Its default and its description are kept as typed; an empty one counts as absent.
-/

namespace SchemaForge

/-- A text that is present and not empty. -/
def nonempty? : Option String → Option String
  | some text => if text = "" then none else some text
  | none      => none

theorem eq_some_of_nonempty? {value : Option String} {text : String}
    (h : nonempty? value = some text) : value = some text := by
  cases value with
  | none => exact nomatch h
  | some value =>
      rw [nonempty?] at h
      split at h
      · exact nomatch h
      · exact h

theorem ne_empty_of_nonempty? {value : Option String} {text : String}
    (h : nonempty? value = some text) : text ≠ "" := by
  cases value with
  | none => exact nomatch h
  | some value =>
      rw [nonempty?] at h
      split at h
      · exact nomatch h
      · next hne =>
          obtain rfl := Option.some.inj h
          exact hne

theorem nonempty?_nonempty? (value : Option String) :
    nonempty? (nonempty? value) = nonempty? value := by
  cases value with
  | none => rfl
  | some value =>
      by_cases hempty : value = ""
      · rw [nonempty?, if_pos hempty, nonempty?]
      · rw [nonempty?, if_neg hempty, nonempty?, if_neg hempty]

/-- One named, typed and constrained member of a schema. -/
structure Field where
  name : String
  required : Bool := true
  nullable : Bool := false
  /-- The text of the default value, as typed. -/
  defaultValue : Option String := none
  description : Option String := none
  rules : Rules
deriving Inhabited

namespace Field

def kind (field : Field) : Kind := field.rules.kind

/-- Changes the kind. The rules of another kind are dropped; those of the same kind are kept. -/
def setKind (field : Field) (kind : Kind) : Field :=
  if field.kind = kind then field else { field with rules := .empty kind }

/-- The text of the default value, if there is one. -/
def defaultText (field : Field) : Option String := nonempty? field.defaultValue

/-- The description, if there is one. -/
def doc (field : Field) : Option String := nonempty? field.description

@[simp] theorem kind_setKind (field : Field) (kind : Kind) : (field.setKind kind).kind = kind := by
  unfold setKind
  split
  · assumption
  · exact Rules.kind_empty kind

end Field

end SchemaForge
