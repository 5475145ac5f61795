import SchemaForge.Proofs.Zod.Base
import SchemaForge.Proofs.Zod.Comparison
import SchemaForge.Proofs.Zod.NormalForm

/-!
# `Proofs.Zod.Injectivity` — the expression of a field determines its normal form

Two fields have the same expression exactly when they have the same normal form. The text of the base
constructor gives the kind, and with it the places of the chain; the chain is compared place by
place; and what stands at the places gives the rules and the modifiers.

## Contents
- **Arguments.** What a call at its place tells of the value that it was made from.
- **Kinds.** `normalForm_eq_of_slots`: the places of two rule records of one kind.
- **Separation.** `separable_field`: the arguments in the chain of a field.
- **Fields.** `text_ofField_eq_iff`.
-/

namespace SchemaForge

/-- No bound of a date has a single quote, so that its literal ends where it should. A default is the
    last call of a chain, and its text may be any. -/
def Rules.HasPlainBounds : Rules → Prop
  | date rules => ∀ text, rules.min = some text ∨ rules.max = some text → '\'' ∉ text.toList
  | _          => True

namespace Zod

/-! ## Arguments -/

theorem flagSlot_inj {method : String} {isSet isSet' : Bool}
    (h : flagSlot method isSet = flagSlot method isSet') : isSet = isSet' := by
  cases isSet <;> cases isSet' <;> first | rfl | exact nomatch h

theorem countSlot_inj {method : String} {value value' : Option UInt32}
    (h : countSlot method value = countSlot method value') : value = value' := by
  have hinjective : Function.Injective fun n : UInt32 => n.toNat.repr := by
    intro n n' hrepr
    have hvalue := congrArg (fun text => Digits.value 10 text.toList) hrepr
    simp only [Nat.toList_repr, Digits.value_toDigits] at hvalue
    exact UInt32.toNat_inj.mp hvalue
  exact Option.map_injective hinjective (Slot.mk.inj h).2

/-- What is written of optional values tells as much of them as of the values. -/
theorem map_eq_map_of {α β γ : Type} {f f' : α → β} {g g' : α → γ} {value value' : Option α}
    (hvalue : ∀ x x', f x = f' x' → g x = g' x') (h : value.map f = value'.map f') :
    value.map g = value'.map g' := by
  cases value with
  | none =>
      rw [Option.map_none, eq_comm, Option.map_eq_none_iff] at h
      rw [h]
      rfl
  | some x =>
      obtain ⟨x', rfl, hx'⟩ := Option.map_eq_some_iff.mp h.symm
      exact congrArg some (hvalue x x' hx'.symm)

theorem numberSlot_inj {method : String} {value value' : Option Binary64}
    (h : numberSlot method value = numberSlot method value') :
    value.map Binary64.canonical = value'.map Binary64.canonical := by
  exact map_eq_map_of (fun x x' htext => (text_eq_iff x x').mp htext) (Slot.mk.inj h).2

theorem textSlot_inj {method : String} {argument : String → String} {text text' : Option String}
    (hinjective : Function.Injective argument)
    (h : textSlot method argument text = textSlot method argument text') :
    nonempty? text = nonempty? text' :=
  Option.map_injective hinjective (Slot.mk.inj h).2

theorem quote_injective : Function.Injective quote := by
  intro text text' h
  exact (quote_append_inj (congrArg (fun s => s.toList ++ []) h)).1

theorem enclose_injective (opening closing : String) :
    Function.Injective fun text => opening ++ text ++ closing := by
  intro text text' h
  have hlist := congrArg String.toList h
  simp only [String.toList_append, List.append_assoc] at hlist
  exact String.toList_inj.mp (List.append_cancel_right (List.append_cancel_left hlist))

theorem dateText_injective : Function.Injective dateText := enclose_injective "new Date('" "')"

/-! ## Kinds -/

/-- A bound that an exact size outranks, and that a rule before both outranks with it. -/
theorem outranked_eq (isOutranked : Bool) (bound length : Option UInt32) :
    (if isOutranked || length.isSome then none else bound)
      = if (if isOutranked then none else length).isSome then none
        else if isOutranked then none else bound := by
  cases isOutranked <;> cases length <;> rfl

theorem string_normalForm_of_slots {rules rules' : StringRules}
    (h : slotsOf (.string rules) = slotsOf (.string rules')) :
    rules.normalForm = rules'.normalForm := by
  simp only [slotsOf, sizeSlots, List.cons_append, List.nil_append, List.cons.injEq] at h
  obtain ⟨hlength, hmin, hmax, hemail, hurl, huuid, hcuid, hregex, hstarts, hends, hincludes,
    htrim, hlower, hupper, -⟩ := h
  unfold StringRules.normalForm
  rw [countSlot_inj hmin, countSlot_inj hmax, countSlot_inj hlength, flagSlot_inj hemail,
    flagSlot_inj hurl, flagSlot_inj huuid, flagSlot_inj hcuid,
    textSlot_inj (enclose_injective "/" "/") hregex, textSlot_inj quote_injective hstarts,
    textSlot_inj quote_injective hends, textSlot_inj quote_injective hincludes,
    flagSlot_inj htrim, flagSlot_inj hlower, flagSlot_inj hupper]

theorem number_normalForm_of_slots {rules rules' : NumberRules}
    (h : slotsOf (.number rules) = slotsOf (.number rules')) :
    rules.normalForm = rules'.normalForm := by
  simp only [slotsOf, List.cons.injEq] at h
  obtain ⟨hint, hfinite, hmin, hmax, hmultiple, hpositive, hnonnegative, hnegative,
    hnonpositive, -⟩ := h
  unfold NumberRules.normalForm
  rw [flagSlot_inj hint, flagSlot_inj hfinite, numberSlot_inj hmin, numberSlot_inj hmax,
    numberSlot_inj hmultiple, flagSlot_inj hpositive, flagSlot_inj hnonnegative,
    flagSlot_inj hnegative, flagSlot_inj hnonpositive]

theorem date_normalForm_of_slots {rules rules' : DateRules}
    (h : slotsOf (.date rules) = slotsOf (.date rules')) :
    rules.normalForm = rules'.normalForm := by
  simp only [slotsOf, List.cons.injEq] at h
  obtain ⟨hmin, hmax, -⟩ := h
  unfold DateRules.normalForm
  rw [textSlot_inj dateText_injective hmin, textSlot_inj dateText_injective hmax]

theorem array_normalForm_of_slots {rules rules' : ArrayRules} {item item' : Option Rules}
    (hitem : plainItem rules.item = plainItem rules'.item)
    (h : slotsOf (.array rules item) = slotsOf (.array rules' item')) :
    rules.normalForm = rules'.normalForm := by
  simp only [slotsOf, sizeSlots, List.cons.injEq] at h
  obtain ⟨hnonempty, hlength, hmin, hmax, -⟩ := h
  unfold ArrayRules.normalForm
  rw [outranked_eq, outranked_eq, outranked_eq rules'.nonempty, outranked_eq rules'.nonempty,
    countSlot_inj hmin, countSlot_inj hmax, countSlot_inj hlength, flagSlot_inj hnonempty, hitem]

/-- **The places of the rules of a kind determine their normal form.** -/
theorem normalForm_eq_of_slots {rules rules' : Rules} (hbase : SameBase rules rules')
    (h : slotsOf rules = slotsOf rules') : rules.normalForm = rules'.normalForm := by
  cases rules <;> cases rules' <;> try exact absurd hbase id
  case string.string => exact congrArg Rules.string (string_normalForm_of_slots h)
  case number.number => exact congrArg Rules.number (number_normalForm_of_slots h)
  case boolean.boolean => rfl
  case date.date => exact congrArg Rules.date (date_normalForm_of_slots h)
  case enum.enum => exact congrArg Rules.enum hbase
  case array.array =>
      exact congrArg (fun rules => Rules.array rules none) (array_normalForm_of_slots hbase h)

/-- The argument of a default determines what is emitted of it. -/
theorem normalDefault_eq_of_defaultText {rules rules' : Rules} (hbase : SameBase rules rules')
    {text text' : String} (h : defaultText rules text = defaultText rules' text') :
    rules.normalDefault text = rules'.normalDefault text' := by
  cases rules <;> cases rules' <;> first
    | exact absurd hbase id
    | exact h
    | exact quote_injective h
    | exact dateText_injective h

/-- The places of the modifiers determine what is emitted of them. -/
theorem modifiers_eq_of_slots {field field' : Field} (hbase : SameBase field.rules field'.rules)
    (h : modifierSlots field = modifierSlots field') :
    field.nullable = field'.nullable ∧ field.required = field'.required ∧
      field.defaultText.map field.rules.normalDefault
        = field'.defaultText.map field'.rules.normalDefault := by
  simp only [modifierSlots, List.cons.injEq] at h
  obtain ⟨hnullable, hoptional, hdefault, -⟩ := h
  refine ⟨flagSlot_inj hnullable, Bool.not_inj (flagSlot_inj hoptional), ?_⟩
  exact map_eq_map_of (fun _ _ => normalDefault_eq_of_defaultText hbase) (Slot.mk.inj hdefault).2

/-! ## Separation -/

theorem separable_singleton (slot slot' : Slot) : Separable [slot] [slot'] := by
  refine ⟨fun argument argument' _ _ h => ?_, trivial⟩
  exact ⟨String.toList_inj.mp (List.append_cancel_right h), rfl⟩

/-- Nothing follows a default, so it is told from the end of the text. -/
theorem separable_modifierSlots (field field' : Field) :
    Separable (modifierSlots field) (modifierSlots field') :=
  separable_append
    (.cons (separates_flag "nullable" _ _) (.cons (separates_flag "optional" _ _) .nil))
    (separable_singleton _ _)

theorem forall₂_sizeSlots (min max length min' max' length' : Option UInt32) :
    List.Forall₂ Separates (sizeSlots min max length) (sizeSlots min' max' length') :=
  .cons (separates_count "length" _ _) (.cons (separates_count "min" _ _)
    (.cons (separates_count "max" _ _) .nil))

/-- A text is followed by code from its regular expression on. -/
theorem isCode_stringSlots (rules : StringRules) {field : Field} (h : field.rules = .string rules) :
    ∀ slot ∈ [textSlot "startsWith" quote rules.startsWith,
        textSlot "endsWith" quote rules.endsWith,
        textSlot "includes" quote rules.includes,
        flagSlot "trim" rules.trim,
        flagSlot "toLowerCase" rules.toLowerCase,
        flagSlot "toUpperCase" rules.toUpperCase] ++ modifierSlots field, slot.IsCode := by
  have hmodifiers : modifierSlots field = [flagSlot "nullable" field.nullable,
      flagSlot "optional" (!field.required), textSlot "default" quote field.defaultValue] := by
    unfold modifierSlots
    rw [h]
    rfl
  rw [hmodifiers, List.forall_mem_append]
  simp only [List.forall_mem_cons, List.not_mem_nil, false_imp_iff, implies_true, and_true]
  exact ⟨⟨isCode_quoteSlot _ (by decide), isCode_quoteSlot _ (by decide),
      isCode_quoteSlot _ (by decide), isCode_flagSlot _ (by decide), isCode_flagSlot _ (by decide),
      isCode_flagSlot _ (by decide)⟩,
    isCode_flagSlot _ (by decide), isCode_flagSlot _ (by decide), isCode_quoteSlot _ (by decide)⟩

theorem separable_string {rules rules' : StringRules} {field field' : Field}
    (h : field.rules = .string rules) (h' : field'.rules = .string rules') :
    Separable (slotsOf (.string rules) ++ modifierSlots field)
      (slotsOf (.string rules') ++ modifierSlots field') := by
  -- Up to the regular expression every argument is told from anything, and behind it there is code.
  have hflags : List.Forall₂ Separates
      [flagSlot "email" rules.email, flagSlot "url" rules.url, flagSlot "uuid" rules.uuid,
        flagSlot "cuid" rules.cuid]
      [flagSlot "email" rules'.email, flagSlot "url" rules'.url, flagSlot "uuid" rules'.uuid,
        flagSlot "cuid" rules'.cuid] :=
    .cons (separates_flag "email" _ _) (.cons (separates_flag "url" _ _)
      (.cons (separates_flag "uuid" _ _) (.cons (separates_flag "cuid" _ _) .nil)))
  have hback := separable_append
    (.cons (separates_quote "startsWith" rules.startsWith rules'.startsWith)
      (.cons (separates_quote "endsWith" rules.endsWith rules'.endsWith)
        (.cons (separates_quote "includes" rules.includes rules'.includes)
          (.cons (separates_flag "trim" rules.trim rules'.trim)
            (.cons (separates_flag "toLowerCase" rules.toLowerCase rules'.toLowerCase)
              (.cons (separates_flag "toUpperCase" rules.toUpperCase rules'.toUpperCase) .nil))))))
    (separable_modifierSlots field field')
  have hregex : Separable
      (textSlot "regex" (fun body => "/" ++ body ++ "/") rules.regex :: _)
      (textSlot "regex" (fun body => "/" ++ body ++ "/") rules'.regex :: _) :=
    ⟨regex_append_inj (isCode_stringSlots rules h) (isCode_stringSlots rules' h'), hback⟩
  have hsizes := forall₂_sizeSlots rules.min rules.max rules.length
    rules'.min rules'.max rules'.length
  have hslots := separable_append hsizes (separable_append hflags hregex)
  exact hslots

theorem separable_number (rules rules' : NumberRules) (field field' : Field) :
    Separable (slotsOf (.number rules) ++ modifierSlots field)
      (slotsOf (.number rules') ++ modifierSlots field') :=
  separable_append
    (.cons (separates_flag "int" _ _) (.cons (separates_flag "finite" _ _)
      (.cons (separates_number "min" _ _) (.cons (separates_number "max" _ _)
        (.cons (separates_number "multipleOf" _ _) (.cons (separates_flag "positive" _ _)
          (.cons (separates_flag "nonnegative" _ _) (.cons (separates_flag "negative" _ _)
            (.cons (separates_flag "nonpositive" _ _) .nil)))))))))
    (separable_modifierSlots field field')

theorem separable_date {rules rules' : DateRules} (hplain : (Rules.date rules).HasPlainBounds)
    (hplain' : (Rules.date rules').HasPlainBounds) (field field' : Field) :
    Separable (slotsOf (.date rules) ++ modifierSlots field)
      (slotsOf (.date rules') ++ modifierSlots field') :=
  separable_append
    (.cons (separates_date "min" (fun text htext => hplain text (Or.inl htext))
        fun text htext => hplain' text (Or.inl htext))
      (.cons (separates_date "max" (fun text htext => hplain text (Or.inr htext))
        fun text htext => hplain' text (Or.inr htext)) .nil))
    (separable_modifierSlots field field')

theorem separable_array (rules rules' : ArrayRules) (item item' : Option Rules)
    (field field' : Field) :
    Separable (slotsOf (.array rules item) ++ modifierSlots field)
      (slotsOf (.array rules' item') ++ modifierSlots field') :=
  separable_append (.cons (separates_flag "nonempty" _ _) (forall₂_sizeSlots _ _ _ _ _ _))
    (separable_modifierSlots field field')

/-- **The arguments in the chains of two fields of one kind are told from what follows them.** -/
theorem separable_field {field field' : Field} (hbase : SameBase field.rules field'.rules)
    (hplain : field.rules.HasPlainBounds) (hplain' : field'.rules.HasPlainBounds) :
    Separable (slotsOf field.rules ++ modifierSlots field)
      (slotsOf field'.rules ++ modifierSlots field') := by
  cases hrules : field.rules <;> cases hrules' : field'.rules <;>
    rw [hrules] at hbase hplain <;> rw [hrules'] at hbase hplain' <;> try exact absurd hbase id
  case string.string => exact separable_string hrules hrules'
  case number.number => exact separable_number _ _ field field'
  case boolean.boolean => exact separable_modifierSlots field field'
  case date.date => exact separable_date hplain hplain' field field'
  case enum.enum => exact separable_modifierSlots field field'
  case array.array => exact separable_array _ _ _ _ field field'

/-! ## Fields -/

theorem methods_field (field : Field) :
    (slotsOf field.rules ++ modifierSlots field).map Slot.method
      = (ofRules field.rules).base.methods ++ ["nullable", "optional", "default"] := by
  rw [List.map_append, methods_slotsOf]
  rfl

/-- No chain calls a method twice, and no method has a parenthesis in its name. -/
theorem nodup_methods (base : Base) :
    (base.methods ++ ["nullable", "optional", "default"]).Nodup := by
  cases base <;> simp [Base.methods]

theorem paren_not_mem_methods (base : Base) :
    ∀ method ∈ base.methods ++ ["nullable", "optional", "default"], '(' ∉ method.toList := by
  cases base <;> simp [Base.methods]

theorem toList_text_ofField (field : Field) :
    (ofField field).text.toList
      = (ofRules field.rules).base.text.toList
        ++ slotsText (slotsOf field.rules ++ modifierSlots field) := by
  unfold Expr.text slotsText
  rw [String.toList_append, toList_join_calls, calls_ofField]
  rfl

/-- **Two fields have the same expression exactly when they have the same normal form.** -/
theorem text_ofField_eq_iff {field field' : Field} (hplain : field.rules.HasPlainBounds)
    (hplain' : field'.rules.HasPlainBounds) :
    (ofField field).text = (ofField field').text ↔ field.normalForm = field'.normalForm := by
  constructor
  · intro htext
    have hlist := congrArg String.toList htext
    rw [toList_text_ofField, toList_text_ofField] at hlist
    obtain ⟨hbase, hchain⟩ := Base.text_append_inj hlist
    have hsame := sameBase_of_base_eq hbase
    have hmethods : (slotsOf field.rules ++ modifierSlots field).map Slot.method
        = (slotsOf field'.rules ++ modifierSlots field').map Slot.method := by
      rw [methods_field, methods_field, hbase]
    have hnodup := nodup_methods (ofRules field.rules).base
    have hparen := paren_not_mem_methods (ofRules field.rules).base
    rw [← methods_field] at hnodup hparen
    have hslots := slots_eq_of_text hmethods hnodup hparen
      (separable_field hsame hplain hplain') hchain
    -- The modifiers stand at the last three places of either chain.
    obtain ⟨hrules, hmodifiers⟩ := List.append_inj' hslots rfl
    obtain ⟨hnullable, hrequired, hdefault⟩ := modifiers_eq_of_slots hsame hmodifiers
    unfold Field.normalForm
    rw [hnullable, hrequired, hdefault, normalForm_eq_of_slots hsame hrules]
  · intro hnormal
    rw [← text_normalForm field, hnormal, text_normalForm field']

/-- Two dates that differ only in what is not emitted, and a regular expression that looks like the
    end of another one. -/
theorem text_ofField_eq_iff_samples :
    let created : Field :=
      { name := "created", rules := .date { min := some "2024-01-01" } }
    let updated : Field :=
      { name := "updated", description := some "When", defaultValue := some "",
        rules := .date { min := some "2024-01-01", max := some "" } }
    let code : Field :=
      { name := "code", rules := .string { regex := some "a", startsWith := some "b" } }
    let body : Field :=
      { name := "body", rules := .string { regex := some "a/).startsWith('b" } }
    (created.rules.HasPlainBounds ∧ updated.rules.HasPlainBounds ∧
        (ofField created).text = (ofField updated).text) ∧
      code.rules.HasPlainBounds ∧ body.rules.HasPlainBounds ∧
        (ofField code).text ≠ (ofField body).text := by
  intro created updated code body
  have hcreated : created.rules.HasPlainBounds := by
    rintro text (h | h)
    · obtain rfl := Option.some.inj h
      decide
    · exact nomatch h
  have hupdated : updated.rules.HasPlainBounds := by
    rintro text (h | h)
    · obtain rfl := Option.some.inj h
      decide
    · obtain rfl := Option.some.inj h
      decide
  have hcode : code.rules.HasPlainBounds := trivial
  have hbody : body.rules.HasPlainBounds := trivial
  have hnormal : code.normalForm ≠ body.normalForm := by
    intro h
    have hrules := Rules.string.inj (congrArg Field.rules h)
    exact absurd (congrArg StringRules.startsWith hrules) (by decide)
  exact ⟨⟨hcreated, hupdated, (text_ofField_eq_iff hcreated hupdated).mpr rfl⟩,
    hcode, hbody, fun h => hnormal ((text_ofField_eq_iff hcode hbody).mp h)⟩

end Zod

end SchemaForge
