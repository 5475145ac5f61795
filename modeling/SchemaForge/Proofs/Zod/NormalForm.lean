import SchemaForge.Proofs.Zod.Base
import SchemaForge.Proofs.Zod.Number
import SchemaForge.Proofs.Zod.Slot

/-!
# `Proofs.Zod.NormalForm` — what the expression of a field keeps of the field

The normal form of a field keeps what is meant to be emitted and drops the rest: the name and the
description, rules that others outrank, empty texts, the difference between numbers that are written
alike, and the rules of elements. Nothing that it drops reaches the expression.

## Contents
- **Normal forms.** `Rules.normalForm`, `Rules.normalDefault`, `Field.normalForm`.
- **Emission.** `text_normalForm`: a field and its normal form have the same expression.
-/

namespace SchemaForge

/-! ## Normal forms -/

def StringRules.normalForm (rules : StringRules) : StringRules :=
  { rules with
    -- The exact length outranks the bounds.
    min := if rules.length.isSome then none else rules.min
    max := if rules.length.isSome then none else rules.max
    regex := nonempty? rules.regex
    startsWith := nonempty? rules.startsWith
    endsWith := nonempty? rules.endsWith
    includes := nonempty? rules.includes }

def NumberRules.normalForm (rules : NumberRules) : NumberRules :=
  { rules with
    min := rules.min.map Binary64.canonical
    max := rules.max.map Binary64.canonical
    multipleOf := rules.multipleOf.map Binary64.canonical }

def DateRules.normalForm (rules : DateRules) : DateRules where
  min := nonempty? rules.min
  max := nonempty? rules.max

def ArrayRules.normalForm (rules : ArrayRules) : ArrayRules where
  min := if rules.nonempty || rules.length.isSome then none else rules.min
  max := if rules.nonempty || rules.length.isSome then none else rules.max
  length := if rules.nonempty then none else rules.length
  nonempty := rules.nonempty
  item := Zod.plainItem rules.item

/-- What is emitted of rules. -/
def Rules.normalForm : Rules → Rules
  | string rules  => string rules.normalForm
  | number rules  => number rules.normalForm
  | boolean       => boolean
  | date rules    => date rules.normalForm
  | enum rules    => enum rules
  | array rules _ => array rules.normalForm none

/-- What is emitted of a default: of a boolean whether it is true, of a collection only that there
    is one. -/
def Rules.normalDefault (rules : Rules) (text : String) : String :=
  match rules with
  | boolean   => if text.toLower == "true" then "true" else "false"
  | array _ _ => "[]"
  | _         => text

/-- What is emitted of a field. -/
def Field.normalForm (field : Field) : Field where
  name := ""
  required := field.required
  nullable := field.nullable
  defaultValue := field.defaultText.map field.rules.normalDefault
  rules := field.rules.normalForm

namespace Zod

/-! ## Emission -/

theorem base_normalForm (rules : Rules) : (ofRules rules.normalForm).base = (ofRules rules).base := by
  cases rules with
  | array rules item =>
      obtain ⟨_, _, _, _, item⟩ := rules
      cases item <;> rfl
  | _ => rfl

theorem numberSlot_canonical (method : String) (value : Option Binary64) :
    numberSlot method (value.map Binary64.canonical) = numberSlot method value := by
  cases value with
  | none   => rfl
  | some x => exact congrArg (fun text => Slot.mk method (some text)) (text_canonical x)

theorem textSlot_nonempty? (method : String) (argument : String → String) (value : Option String) :
    textSlot method argument (nonempty? value) = textSlot method argument value := by
  unfold textSlot
  rw [nonempty?_nonempty?]

/-- The calls of rules and of their normal form stand at the same places. -/
theorem slotsOf_normalForm (rules : Rules) : slotsOf rules.normalForm = slotsOf rules := by
  cases rules with
  | string rules =>
      cases h : rules.length <;>
        simp [Rules.normalForm, StringRules.normalForm, slotsOf, sizeSlots, textSlot_nonempty?, h]
  | number rules =>
      simp [Rules.normalForm, NumberRules.normalForm, slotsOf, numberSlot_canonical]
  | boolean => rfl
  | date rules =>
      simp [Rules.normalForm, DateRules.normalForm, slotsOf, textSlot_nonempty?]
  | enum rules => rfl
  | array rules item =>
      cases h : rules.nonempty <;> cases h' : rules.length <;>
        simp [Rules.normalForm, ArrayRules.normalForm, slotsOf, sizeSlots, h, h']

theorem normalDefault_ne_empty (rules : Rules) {text : String} (h : text ≠ "") :
    rules.normalDefault text ≠ "" := by
  cases rules with
  | boolean =>
      unfold Rules.normalDefault
      dsimp only
      split
      · decide
      · decide
  | array rules item => exact (by decide : "[]" ≠ "")
  | _ => exact h

theorem defaultText_normalDefault (rules : Rules) (text : String) :
    defaultText rules.normalForm (rules.normalDefault text) = defaultText rules text := by
  cases rules with
  | boolean =>
      have htrue : ("true".toLower == "true") = true := by decide +kernel
      have hfalse : ("false".toLower == "true") = false := by decide +kernel
      unfold Rules.normalForm Rules.normalDefault defaultText
      dsimp only
      cases text.toLower == "true" with
      | true  => rw [if_pos rfl, if_pos htrue]
      | false => rw [if_neg Bool.false_ne_true, hfalse, if_neg Bool.false_ne_true]
  | _ => rfl

/-- The modifiers of a field and of its normal form stand at the same places. -/
theorem modifierSlots_normalForm (field : Field) :
    modifierSlots field.normalForm = modifierSlots field := by
  have hdefault : textSlot "default" (defaultText field.rules.normalForm)
        (field.defaultText.map field.rules.normalDefault)
      = textSlot "default" (defaultText field.rules) field.defaultValue := by
    unfold textSlot Field.defaultText
    cases htext : nonempty? field.defaultValue with
    | none => rfl
    | some text =>
        have hne := normalDefault_ne_empty field.rules (ne_empty_of_nonempty? htext)
        rw [Option.map_some, nonempty?, if_neg hne, Option.map_some, Option.map_some,
          defaultText_normalDefault]
  exact congrArg (fun slot => [_, _, slot]) hdefault

/-- **A field and its normal form have the same expression.** -/
theorem text_normalForm (field : Field) :
    (ofField field.normalForm).text = (ofField field).text := by
  have hbase : (ofField field.normalForm).base = (ofField field).base :=
    base_normalForm field.rules
  have hcalls : (ofField field.normalForm).calls = (ofField field).calls := by
    rw [calls_ofField, calls_ofField, modifierSlots_normalForm]
    exact congrArg (fun slots => callsOf (slots ++ modifierSlots field))
      (slotsOf_normalForm field.rules)
  unfold Expr.text
  rw [hbase, hcalls]

end Zod

end SchemaForge
