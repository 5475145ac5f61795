import SchemaForge.Proofs.Zod.Injectivity

/-!
# `Proofs.Zod.Order` — which methods a chain calls, and in which order

Every kind has its methods in a fixed order, and a chain calls some of them, each at most once and in that
order. A method is called exactly if its rule is set and no other rule of the record suppresses it: the exact
length of a text suppresses its bounds, and a collection that must not be empty says nothing more of its size.
What is suppressed does not reach the expression, and neither do the rules of elements.

## Contents
- **Rules.** `Rules.isSet`, `Rules.suppressed` and `Rules.asks`.
- **Places.** `isSome_argument_slotsOf`: a call stands at its place exactly if it is asked for.
- **Chains.** `map_method_calls`: the methods of a chain are those of its base that are asked for.
- **Collections.** `ArrayRules.SameUnsuppressed`, and `arrayChain_eq`.
- **The whole.** `chain_canonical`.
-/

namespace SchemaForge

/-! ## Rules -/

/-- Whether the rule of a method is set. A text that is empty sets nothing. -/
def StringRules.isSet (rules : StringRules) : String → Bool
  | "length"      => rules.length.isSome
  | "min"         => rules.min.isSome
  | "max"         => rules.max.isSome
  | "email"       => rules.email
  | "url"         => rules.url
  | "uuid"        => rules.uuid
  | "cuid"        => rules.cuid
  | "regex"       => (nonempty? rules.regex).isSome
  | "startsWith"  => (nonempty? rules.startsWith).isSome
  | "endsWith"    => (nonempty? rules.endsWith).isSome
  | "includes"    => (nonempty? rules.includes).isSome
  | "trim"        => rules.trim
  | "toLowerCase" => rules.toLowerCase
  | "toUpperCase" => rules.toUpperCase
  | _             => false

def NumberRules.isSet (rules : NumberRules) : String → Bool
  | "int"         => rules.int
  | "finite"      => rules.finite
  | "min"         => rules.min.isSome
  | "max"         => rules.max.isSome
  | "multipleOf"  => rules.multipleOf.isSome
  | "positive"    => rules.positive
  | "nonnegative" => rules.nonnegative
  | "negative"    => rules.negative
  | "nonpositive" => rules.nonpositive
  | _             => false

def DateRules.isSet (rules : DateRules) : String → Bool
  | "min" => (nonempty? rules.min).isSome
  | "max" => (nonempty? rules.max).isSome
  | _     => false

def ArrayRules.isSet (rules : ArrayRules) : String → Bool
  | "nonempty" => rules.nonempty
  | "length"   => rules.length.isSome
  | "min"      => rules.min.isSome
  | "max"      => rules.max.isSome
  | _          => false

/-- Whether the rule of a method is set. Booleans and enumerations have no methods. -/
def Rules.isSet (rules : Rules) (method : String) : Bool :=
  match rules with
  | .string rules  => rules.isSet method
  | .number rules  => rules.isSet method
  | .boolean       => false
  | .date rules    => rules.isSet method
  | .enum _        => false
  | .array rules _ => rules.isSet method

/-- The methods that other rules of the record suppress: the exact length of a text its bounds, and of a
    collection that it must not be empty its length and bounds, and the exact length the bounds. -/
def Rules.suppressed : Rules → List String
  | .string rules  => if rules.length.isSome then ["min", "max"] else []
  | .array rules _ =>
    (if rules.nonempty then ["length", "min", "max"] else [])
      ++ if rules.length.isSome then ["min", "max"] else []
  | _              => []

/-- Whether a rule record asks for a method: its rule is set, and no other rule suppresses it. -/
def Rules.asks (rules : Rules) (method : String) : Bool :=
  rules.isSet method && !rules.suppressed.contains method

theorem Rules.asks_iff (rules : Rules) (method : String) :
    rules.asks method = true ↔ rules.isSet method = true ∧ method ∉ rules.suppressed := by
  simp [Rules.asks]

namespace Zod

/-! ## Places -/

@[simp] theorem isSome_flagSlot (method : String) (isSet : Bool) :
    (flagSlot method isSet).argument.isSome = isSet := by
  cases isSet <;> rfl

@[simp] theorem isSome_countSlot (method : String) (value : Option UInt32) :
    (countSlot method value).argument.isSome = value.isSome := Option.isSome_map

@[simp] theorem isSome_numberSlot (method : String) (value : Option Binary64) :
    (numberSlot method value).argument.isSome = value.isSome := Option.isSome_map

@[simp] theorem isSome_textSlot (method : String) (argument : String → String) (text : Option String) :
    (textSlot method argument text).argument.isSome = (nonempty? text).isSome := Option.isSome_map

@[simp] theorem method_flagSlot (method : String) (isSet : Bool) :
    (flagSlot method isSet).method = method := rfl

@[simp] theorem method_countSlot (method : String) (value : Option UInt32) :
    (countSlot method value).method = method := rfl

@[simp] theorem method_numberSlot (method : String) (value : Option Binary64) :
    (numberSlot method value).method = method := rfl

@[simp] theorem method_textSlot (method : String) (argument : String → String) (text : Option String) :
    (textSlot method argument text).method = method := rfl

/-- **A call stands at its place exactly if the record asks for its method.** -/
theorem isSome_argument_slotsOf (rules : Rules) :
    ∀ slot ∈ slotsOf rules, slot.argument.isSome = rules.asks slot.method := by
  cases rules with
  | string rules =>
      -- with an exact length, nothing stands at the places of the bounds
      cases hlength : rules.length <;>
        simp [slotsOf, sizeSlots, Rules.asks, Rules.suppressed, Rules.isSet, StringRules.isSet, hlength]
  | number rules =>
      simp [slotsOf, Rules.asks, Rules.suppressed, Rules.isSet, NumberRules.isSet]
  | boolean => exact List.forall_mem_nil _
  | date rules =>
      simp [slotsOf, Rules.asks, Rules.suppressed, Rules.isSet, DateRules.isSet]
  | enum _ => exact List.forall_mem_nil _
  | array rules items =>
      cases hnonempty : rules.nonempty <;> cases hlength : rules.length <;>
        simp [slotsOf, sizeSlots, Rules.asks, Rules.suppressed, Rules.isSet, ArrayRules.isSet, hnonempty,
          hlength]

/-- Only methods of the base can be asked for. -/
theorem mem_methods_of_isSet {rules : Rules} {method : String} (h : rules.isSet method = true) :
    method ∈ (ofRules rules).base.methods := by
  cases rules with
  | string rules =>
      show method ∈ Base.string.methods
      rw [Rules.isSet, StringRules.isSet.eq_def] at h
      split at h <;> first | decide | exact absurd h Bool.false_ne_true
  | number rules =>
      show method ∈ Base.number.methods
      rw [Rules.isSet, NumberRules.isSet.eq_def] at h
      split at h <;> first | decide | exact absurd h Bool.false_ne_true
  | boolean => exact nomatch h
  | date rules =>
      show method ∈ Base.date.methods
      rw [Rules.isSet, DateRules.isSet.eq_def] at h
      split at h <;> first | decide | exact absurd h Bool.false_ne_true
  | enum _ => exact nomatch h
  | array rules items =>
      show method ∈ ["nonempty", "length", "min", "max"]
      rw [Rules.isSet, ArrayRules.isSet.eq_def] at h
      split at h <;> first | decide | exact absurd h Bool.false_ne_true

/-! ## Chains -/

/-- The methods that are called stand at places with an argument. -/
theorem map_method_callsOf (slots : List Slot) :
    (callsOf slots).map Call.method
      = (slots.filter fun slot => slot.argument.isSome).map Slot.method := by
  induction slots with
  | nil => rfl
  | cons slot slots ih =>
      obtain ⟨method, argument⟩ := slot
      rw [callsOf_cons, List.map_append, ih]
      cases argument with
      | none          => rfl
      | some argument => rfl

/-- **A chain calls the methods of its base that the record asks for**, in the order of the base. -/
theorem map_method_calls (rules : Rules) :
    (ofRules rules).calls.map Call.method = (ofRules rules).base.methods.filter rules.asks := by
  rw [calls_ofRules, map_method_callsOf, ← methods_slotsOf, List.filter_map]
  exact congrArg _ (List.filter_congr (isSome_argument_slotsOf rules))

/-- The bounds are suppressed, and an empty regular expression is none. -/
example :
    (ofRules (.string { min := some 3, length := some 2, trim := true, regex := some "" })).calls.map
      Call.method = ["length", "trim"] := by decide

end Zod

/-! ## Collections -/

/-- Two collections whose rules are the same, but for those that other rules suppress. -/
structure ArrayRules.SameUnsuppressed (rules rules' : ArrayRules) : Prop where
  item : rules.item = rules'.item
  nonempty : rules.nonempty = rules'.nonempty
  length : "length" ∉ (Rules.array rules none).suppressed → rules.length = rules'.length
  min : "min" ∉ (Rules.array rules none).suppressed → rules.min = rules'.min
  max : "max" ∉ (Rules.array rules none).suppressed → rules.max = rules'.max

namespace Zod

/-- What is suppressed adds no call. -/
theorem arrayChain_eq {rules rules' : ArrayRules} (h : rules.SameUnsuppressed rules') :
    arrayChain rules = arrayChain rules' := by
  unfold arrayChain size
  rw [← h.nonempty]
  cases hnonempty : rules.nonempty with
  | true  => rfl
  | false =>
      have hlength : rules.length = rules'.length := by
        refine h.length ?_
        cases hsome : rules.length <;> simp [Rules.suppressed, hnonempty, hsome]
      rw [← hlength]
      cases hsome : rules.length with
      | some n => rfl
      | none   =>
          -- no rule is suppressed
          have hmin : rules.min = rules'.min := h.min (by simp [Rules.suppressed, hnonempty, hsome])
          have hmax : rules.max = rules'.max := h.max (by simp [Rules.suppressed, hnonempty, hsome])
          rw [hmin, hmax]

/-! ## The whole -/

/-- **A chain calls methods in the order of its kind, each at most once**, and exactly those whose rules are
    set and not suppressed by others. The order is that of `Base.methods`. Two collections that differ only in
    the rules of their elements or in rules that others suppress have the same expression. -/
theorem chain_canonical :
    (∀ rules : Rules,
      ((ofRules rules).calls.map Call.method).Sublist (ofRules rules).base.methods ∧
      (ofRules rules).base.methods.Nodup ∧
      ((ofRules rules).calls.map Call.method).Nodup ∧
      ∀ method, method ∈ (ofRules rules).calls.map Call.method
        ↔ rules.isSet method = true ∧ method ∉ rules.suppressed) ∧
    ∀ (rules rules' : ArrayRules) (items items' : Option Rules), rules.SameUnsuppressed rules' →
      ofRules (.array rules items) = ofRules (.array rules' items') := by
  refine ⟨fun rules => ?_, fun rules rules' items items' h => ?_⟩
  · have hnodup : (ofRules rules).base.methods.Nodup :=
      (nodup_methods (ofRules rules).base).sublist (List.sublist_append_left _ _)
    rw [map_method_calls]
    refine ⟨List.filter_sublist, hnodup, hnodup.filter _, fun method => ?_⟩
    rw [List.mem_filter, rules.asks_iff]
    exact ⟨fun h => h.2, fun h => ⟨mem_methods_of_isSet h.1, h⟩⟩
  · show (⟨.array (.element rules.item), arrayChain rules⟩ : Expr)
      = ⟨.array (.element rules'.item), arrayChain rules'⟩
    rw [arrayChain_eq h, h.item]

/-- Two collections that must not be empty, of three elements and of at least one: neither number is
    written. -/
theorem chain_canonical_notEmpty :
    let three : ArrayRules := { nonempty := true, length := some 3, item := .number }
    let atLeastOne : ArrayRules := { nonempty := true, min := some 1, item := .number }
    three.SameUnsuppressed atLeastOne ∧
      ofRules (.array three (some .boolean)) = ofRules (.array atLeastOne none) ∧
      (ofRules (.array three (some .boolean))).text = "z.array(z.number()).nonempty()" := by
  intro three atLeastOne
  have hsuppressed : (Rules.array three none).suppressed = ["length", "min", "max", "min", "max"] := rfl
  have hsame : three.SameUnsuppressed atLeastOne :=
    { item := rfl
      nonempty := rfl
      length := fun h => absurd (by rw [hsuppressed]; decide) h
      min := fun h => absurd (by rw [hsuppressed]; decide) h
      max := fun _ => rfl }
  exact ⟨hsame, chain_canonical.2 three atLeastOne (some .boolean) none hsame, by decide⟩

end Zod

end SchemaForge
