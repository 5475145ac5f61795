import SchemaForge.Zod.Chain

/-!
# `Proofs.Zod.Slot` — the fixed places of a chain of calls

Every chain has a fixed list of places, one for each method it may call, and a call stands at its
place or is missing. Which places there are depends on the base constructor alone, so the calls of
two chains of one base can be compared place by place.

## Contents
- **Slots.** `Slot`, and `callsOf`, the calls that stand at their places.
- **Chains.** `slotsOf`, `Base.methods`, `calls_ofRules` and `calls_ofField`.
-/

namespace SchemaForge.Zod

/-! ## Slots -/

/-- A place in a chain: the method that may be called there, and its argument if it is called. -/
structure Slot where
  method : String
  argument : Option String

/-- The call at a place, if there is one. -/
def Slot.calls (slot : Slot) : List Call :=
  slot.argument.toList.map fun argument => ⟨slot.method, argument⟩

/-- The calls that stand at their places. -/
def callsOf (slots : List Slot) : List Call := slots.flatMap Slot.calls

theorem callsOf_append (slots more : List Slot) :
    callsOf (slots ++ more) = callsOf slots ++ callsOf more := List.flatMap_append

theorem callsOf_cons (slot : Slot) (slots : List Slot) :
    callsOf (slot :: slots) = slot.calls ++ callsOf slots := List.flatMap_cons

theorem method_mem_of_mem_callsOf {slots : List Slot} {call : Call} (h : call ∈ callsOf slots) :
    call.method ∈ slots.map Slot.method := by
  obtain ⟨slot, hslot, hcall⟩ := List.mem_flatMap.mp h
  obtain ⟨argument, -, rfl⟩ := List.mem_map.mp hcall
  exact List.mem_map_of_mem hslot

/-! ## The places of each chain -/

def flagSlot (method : String) (isSet : Bool) : Slot := ⟨method, if isSet then some "" else none⟩

def countSlot (method : String) (value : Option UInt32) : Slot :=
  ⟨method, value.map fun n => n.toNat.repr⟩

def numberSlot (method : String) (value : Option Binary64) : Slot :=
  ⟨method, value.map numberStyle.text⟩

def textSlot (method : String) (argument : String → String) (text : Option String) : Slot :=
  ⟨method, (nonempty? text).map argument⟩

theorem flag_eq (method : String) (isSet : Bool) :
    flag method isSet = (flagSlot method isSet).calls := by
  cases isSet <;> rfl

theorem count_eq (method : String) (value : Option UInt32) :
    count method value = (countSlot method value).calls := by
  cases value <;> rfl

theorem number_eq (method : String) (value : Option Binary64) :
    number method value = (numberSlot method value).calls := by
  cases value <;> rfl

theorem texted_eq (method : String) (argument : String → String) (text : Option String) :
    texted method argument text = (textSlot method argument text).calls := by
  unfold texted textSlot
  cases nonempty? text <;> rfl

/-- The places of the bounds of a size. -/
def sizeSlots (min max length : Option UInt32) : List Slot :=
  [countSlot "length" length, countSlot "min" (if length.isSome then none else min),
   countSlot "max" (if length.isSome then none else max)]

theorem size_eq (min max length : Option UInt32) :
    size min max length = callsOf (sizeSlots min max length) := by
  cases length <;> simp [size, sizeSlots, callsOf, count_eq, countSlot, Slot.calls]

/-- The places of the rules of a kind. -/
def slotsOf : Rules → List Slot
  | .string rules =>
    sizeSlots rules.min rules.max rules.length
      ++ [flagSlot "email" rules.email,
          flagSlot "url" rules.url,
          flagSlot "uuid" rules.uuid,
          flagSlot "cuid" rules.cuid,
          textSlot "regex" (fun body => "/" ++ body ++ "/") rules.regex,
          textSlot "startsWith" quote rules.startsWith,
          textSlot "endsWith" quote rules.endsWith,
          textSlot "includes" quote rules.includes,
          flagSlot "trim" rules.trim,
          flagSlot "toLowerCase" rules.toLowerCase,
          flagSlot "toUpperCase" rules.toUpperCase]
  | .number rules =>
    [flagSlot "int" rules.int,
     flagSlot "finite" rules.finite,
     numberSlot "min" rules.min,
     numberSlot "max" rules.max,
     numberSlot "multipleOf" rules.multipleOf,
     flagSlot "positive" rules.positive,
     flagSlot "nonnegative" rules.nonnegative,
     flagSlot "negative" rules.negative,
     flagSlot "nonpositive" rules.nonpositive]
  | .boolean => []
  | .date rules => [textSlot "min" dateText rules.min, textSlot "max" dateText rules.max]
  | .enum _ => []
  | .array rules _ =>
    flagSlot "nonempty" rules.nonempty
      :: sizeSlots (if rules.nonempty then none else rules.min)
          (if rules.nonempty then none else rules.max)
          (if rules.nonempty then none else rules.length)

/-- The methods that refine a base constructor, in the order in which a chain calls them. -/
def Base.methods : Base → List String
  | string =>
    ["length", "min", "max", "email", "url", "uuid", "cuid", "regex", "startsWith", "endsWith",
     "includes", "trim", "toLowerCase", "toUpperCase"]
  | number =>
    ["int", "finite", "min", "max", "multipleOf", "positive", "nonnegative", "negative",
     "nonpositive"]
  | date    => ["min", "max"]
  | array _ => ["nonempty", "length", "min", "max"]
  | boolean | unknown | never | enum _ => []

theorem methods_slotsOf (rules : Rules) :
    (slotsOf rules).map Slot.method = (ofRules rules).base.methods := by
  cases rules with
  | enum rules =>
      obtain ⟨values⟩ := rules
      cases values <;> rfl
  | _ => rfl

/-- The places of the modifiers of a field. -/
def modifierSlots (field : Field) : List Slot :=
  [flagSlot "nullable" field.nullable,
   flagSlot "optional" (!field.required),
   textSlot "default" (defaultText field.rules) field.defaultValue]

theorem modifiers_eq (field : Field) : modifiers field = callsOf (modifierSlots field) := by
  simp [modifiers, modifierSlots, flag_eq, texted_eq, callsOf]

/-- **The calls of a rule record stand at the places of its kind.** -/
theorem calls_ofRules (rules : Rules) : (ofRules rules).calls = callsOf (slotsOf rules) := by
  cases rules with
  | string rules =>
      simp [ofRules, stringChain, slotsOf, size_eq, flag_eq, texted_eq, callsOf]
  | number rules =>
      simp [ofRules, numberChain, slotsOf, flag_eq, number_eq, callsOf]
  | boolean => rfl
  | date rules => simp [ofRules, dateChain, slotsOf, texted_eq, callsOf]
  | enum rules => rfl
  | array rules item =>
      cases h : rules.nonempty <;>
        simp [ofRules, arrayChain, slotsOf, size_eq, flag_eq, callsOf, flagSlot, sizeSlots, h,
          Slot.calls, countSlot]

theorem calls_ofField (field : Field) :
    (ofField field).calls = callsOf (slotsOf field.rules ++ modifierSlots field) := by
  unfold ofField
  dsimp only
  rw [calls_ofRules, modifiers_eq, callsOf_append]

end SchemaForge.Zod
