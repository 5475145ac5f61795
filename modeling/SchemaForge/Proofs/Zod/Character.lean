import SchemaForge.Proofs.Text.Lines
import SchemaForge.Proofs.Zod.Injectivity
import SchemaForge.Schema

/-!
# `Proofs.Zod.Character` — which characters an expression has

An expression is made of names, numbers, parentheses, quotes and the texts of its field. A character
that none of its own marks is stands in an expression only if a text of the field has it.

## Contents
- **Texts.** `Rules.texts`, `Field.texts` and `Schema.texts`, everything that is free text.
- **Marks.** `isCodeChar`, and `Lacks`, an argument without a character.
- **Expressions.** `not_mem_text_ofField`.
-/

namespace SchemaForge

/-! ## Free texts -/

/-- The texts of a rule record, those for the elements of a collection among them. -/
def Rules.texts : Rules → List String
  | .string rules         =>
    rules.regex.toList ++ rules.startsWith.toList ++ rules.endsWith.toList ++ rules.includes.toList
  | .number _             => []
  | .boolean              => []
  | .date rules           => rules.min.toList ++ rules.max.toList
  | .enum rules           => rules.values
  | .array _ none         => []
  | .array _ (some items) => items.texts

/-- The texts of a field. -/
def Field.texts (field : Field) : List String :=
  field.name :: field.description.toList ++ field.defaultValue.toList ++ field.rules.texts

/-- The texts of a schema and its fields. -/
def Schema.texts (schema : Schema) : List String :=
  schema.name :: schema.description.toList ++ schema.fields.flatMap Field.texts

theorem Field.texts_subset {schema : Schema} {field : Field} (h : field ∈ schema.fields) :
    field.texts ⊆ schema.texts := fun _ htext =>
  List.mem_append_right _ (List.mem_flatMap.mpr ⟨field, h, htext⟩)

end SchemaForge

namespace SchemaForge.Zod

open Text

/-! ## Marks of expressions -/

/-- Whether a character can belong to an expression without standing in a text of the field. -/
def isCodeChar (c : Char) : Bool :=
  c.isAlphanum || ['.', '(', ')', '[', ']', '/', ',', ' ', '\'', '\\', '+', '-'].contains c

theorem isCodeChar_of_isNumberChar {c : Char} (h : isNumberChar c = true) : isCodeChar c = true := by
  rw [isNumberChar, Bool.or_eq_true] at h
  rcases h with hdigit | hmark
  · simp [isCodeChar, Char.isAlphanum, hdigit]
  · simp only [List.contains_iff_mem, List.mem_cons, List.not_mem_nil, or_false] at hmark
    rcases hmark with rfl | rfl | rfl | rfl | rfl | rfl | rfl | rfl | rfl | rfl | rfl | rfl <;> rfl

/-- The argument of a call, if it is made, does not have a character. -/
def Slot.Lacks (mark : Char) (slot : Slot) : Prop :=
  ∀ argument, slot.argument = some argument → mark ∉ argument.toList

section

variable {mark : Char} (hmark : isCodeChar mark = false)
include hmark

theorem not_mem_of_isCodeChar {text : List Char} (h : ∀ c ∈ text, isCodeChar c = true) :
    mark ∉ text := by
  intro hmem
  rw [h mark hmem] at hmark
  exact absurd hmark (by simp)

theorem not_mem_code {text : List Char} (h : text.all isCodeChar = true) : mark ∉ text :=
  not_mem_of_isCodeChar hmark (List.all_eq_true.mp h)

/-! ## Arguments -/

theorem not_mem_escape {text : List Char} (h : mark ∉ text) : mark ∉ Quoted.escape text := by
  induction text with
  | nil => exact List.not_mem_nil
  | cons c text ih =>
      rw [List.mem_cons, not_or] at h
      have hback : mark ≠ '\\' := by
        rintro rfl
        exact absurd hmark (by decide)
      rw [Quoted.escape]
      split
      · simp [hback, h.1, ih h.2]
      · simp [h.1, ih h.2]

/-- A literal has the characters of its text. -/
theorem not_mem_quote {text : String} (h : mark ∉ text.toList) : mark ∉ (quote text).toList := by
  have hquote : mark ≠ '\'' := by
    rintro rfl
    exact absurd hmark (by decide)
  rw [quote, String.toList_ofList]
  simp [hquote, not_mem_escape hmark h]

theorem not_mem_dateText {iso : String} (h : mark ∉ iso.toList) : mark ∉ (dateText iso).toList := by
  have hopen := not_mem_code hmark (by decide : "new Date('".toList.all isCodeChar = true)
  have hclose := not_mem_code hmark (by decide : "')".toList.all isCodeChar = true)
  rw [dateText, String.toList_append, String.toList_append, List.mem_append, List.mem_append]
  exact not_or.mpr ⟨not_or.mpr ⟨hopen, h⟩, hclose⟩

theorem not_mem_regexText {body : String} (h : mark ∉ body.toList) :
    mark ∉ ("/" ++ body ++ "/").toList := by
  have hslash := not_mem_code hmark (by decide : "/".toList.all isCodeChar = true)
  rw [String.toList_append, String.toList_append, List.mem_append, List.mem_append]
  exact not_or.mpr ⟨not_or.mpr ⟨hslash, h⟩, hslash⟩

theorem not_mem_defaultText {rules : Rules} {text : String} (h : mark ∉ text.toList) :
    mark ∉ (defaultText rules text).toList := by
  cases rules with
  | string _ => exact not_mem_quote hmark h
  | enum _   => exact not_mem_quote hmark h
  | number _ => exact h
  | date _   => exact not_mem_dateText hmark h
  | array _ _ => exact not_mem_code hmark (by decide : "[]".toList.all isCodeChar = true)
  | boolean =>
      unfold defaultText
      dsimp only
      split
      · exact not_mem_code hmark (by decide)
      · exact not_mem_code hmark (by decide)

/-! ## Calls -/

omit hmark in
theorem lacks_flagSlot (method : String) (isSet : Bool) : (flagSlot method isSet).Lacks mark := by
  intro argument hargument
  cases isSet with
  | true =>
      obtain rfl := Option.some.inj hargument
      exact List.not_mem_nil
  | false => exact nomatch hargument

theorem lacks_countSlot (method : String) (value : Option UInt32) :
    (countSlot method value).Lacks mark := by
  intro argument hargument
  obtain ⟨n, -, rfl⟩ := Option.map_eq_some_iff.mp hargument
  exact not_mem_of_isCodeChar hmark fun c hc => isCodeChar_of_isNumberChar (isNumberChar_repr _ c hc)

theorem lacks_numberSlot (method : String) (value : Option Binary64) :
    (numberSlot method value).Lacks mark := by
  intro argument hargument
  obtain ⟨x, -, rfl⟩ := Option.map_eq_some_iff.mp hargument
  exact not_mem_of_isCodeChar hmark fun c hc => isCodeChar_of_isNumberChar (isNumberChar_text x c hc)

theorem lacks_sizeSlots (min max length : Option UInt32) :
    ∀ slot ∈ sizeSlots min max length, slot.Lacks mark :=
  List.forall_mem_cons.mpr ⟨lacks_countSlot hmark _ _, List.forall_mem_cons.mpr
    ⟨lacks_countSlot hmark _ _, List.forall_mem_singleton.mpr (lacks_countSlot hmark _ _)⟩⟩

omit hmark in
/-- An argument made from a text has no more characters than the text and what is written around it. -/
theorem lacks_textSlot (method : String) {argument : String → String} {text : Option String}
    (hargument : ∀ {text : String}, mark ∉ text.toList → mark ∉ (argument text).toList)
    (htext : ∀ t ∈ text.toList, mark ∉ t.toList) : (textSlot method argument text).Lacks mark := by
  intro argument' hargument'
  obtain ⟨t, ht, rfl⟩ := Option.map_eq_some_iff.mp hargument'
  have hsome := eq_some_of_nonempty? ht
  exact hargument (htext t (by rw [hsome]; exact List.mem_singleton_self t))

/-- **The calls that rules ask for** have no character that neither code nor a text of theirs has. -/
theorem lacks_slotsOf {rules : Rules} (h : ∀ text ∈ rules.texts, mark ∉ text.toList) :
    ∀ slot ∈ slotsOf rules, slot.Lacks mark := by
  cases rules with
  | string rules =>
      simp only [Rules.texts, List.forall_mem_append] at h
      obtain ⟨⟨⟨hregex, hstarts⟩, hends⟩, hincludes⟩ := h
      simp only [slotsOf, List.forall_mem_append, List.forall_mem_cons]
      exact ⟨lacks_sizeSlots hmark _ _ _, lacks_flagSlot _ _, lacks_flagSlot _ _,
        lacks_flagSlot _ _, lacks_flagSlot _ _,
        lacks_textSlot _ (not_mem_regexText hmark) hregex,
        lacks_textSlot _ (not_mem_quote hmark) hstarts,
        lacks_textSlot _ (not_mem_quote hmark) hends,
        lacks_textSlot _ (not_mem_quote hmark) hincludes, lacks_flagSlot _ _,
        lacks_flagSlot _ _, lacks_flagSlot _ _, List.forall_mem_nil _⟩
  | number rules =>
      simp only [slotsOf, List.forall_mem_cons]
      exact ⟨lacks_flagSlot _ _, lacks_flagSlot _ _, lacks_numberSlot hmark _ _,
        lacks_numberSlot hmark _ _, lacks_numberSlot hmark _ _, lacks_flagSlot _ _,
        lacks_flagSlot _ _, lacks_flagSlot _ _, lacks_flagSlot _ _, List.forall_mem_nil _⟩
  | boolean => exact List.forall_mem_nil _
  | date rules =>
      simp only [Rules.texts, List.forall_mem_append] at h
      exact List.forall_mem_cons.mpr ⟨lacks_textSlot _ (not_mem_dateText hmark) h.1,
        List.forall_mem_singleton.mpr (lacks_textSlot _ (not_mem_dateText hmark) h.2)⟩
  | enum _ => exact List.forall_mem_nil _
  | array rules items =>
      exact List.forall_mem_cons.mpr ⟨lacks_flagSlot _ _, lacks_sizeSlots hmark _ _ _⟩

theorem lacks_modifierSlots {field : Field}
    (h : ∀ text ∈ field.defaultValue.toList, mark ∉ text.toList) :
    ∀ slot ∈ modifierSlots field, slot.Lacks mark :=
  List.forall_mem_cons.mpr ⟨lacks_flagSlot _ _, List.forall_mem_cons.mpr
    ⟨lacks_flagSlot _ _,
      List.forall_mem_singleton.mpr (lacks_textSlot _ (not_mem_defaultText hmark) h)⟩⟩

/-! ## Expressions -/

theorem not_mem_slotsText {slots : List Slot}
    (hmethods : ∀ method ∈ slots.map Slot.method, mark ∉ method.toList)
    (h : ∀ slot ∈ slots, slot.Lacks mark) : mark ∉ slotsText slots := by
  have hdot : mark ∉ ['.', '(', ')'] := not_mem_code hmark (by decide)
  induction slots with
  | nil => exact List.not_mem_nil
  | cons slot slots ih =>
      have hrest := ih (fun m hm => hmethods m (by simp [hm])) (fun s hs => h s (by simp [hs]))
      obtain ⟨method, argument⟩ := slot
      cases argument with
      | none => rw [slotsText_none]; exact hrest
      | some argument =>
          have hmethod := hmethods method (by simp)
          have hargument := h ⟨method, some argument⟩ (by simp) argument rfl
          simp only [List.mem_cons, List.not_mem_nil, or_false, not_or] at hdot
          rw [slotsText_some]
          simp [hdot, hmethod, hargument, hrest]

omit hmark in
theorem isCodeChar_methods (base : Base) :
    ∀ method ∈ base.methods ++ ["nullable", "optional", "default"],
      method.toList.all isCodeChar = true := by
  cases base <;> simp only [Base.methods] <;> exact List.all_eq_true.mp (by decide)

/-- The base constructor has the characters of the literals. -/
theorem not_mem_text_base {rules : Rules} (h : ∀ text ∈ rules.texts, mark ∉ text.toList) :
    mark ∉ (ofRules rules).base.text.toList := by
  cases rules with
  | enum rules =>
      obtain ⟨values⟩ := rules
      cases values with
      | nil => exact not_mem_code hmark (by decide)
      | cons value values =>
          have hseparator := not_mem_code hmark (by decide : ", ".toList.all isCodeChar = true)
          have hopen := not_mem_code hmark (by decide : "z.enum([".toList.all isCodeChar = true)
          have hclose := not_mem_code hmark (by decide : "])".toList.all isCodeChar = true)
          have hliterals : ∀ c ∈ (", ".intercalate ((value :: values).map quote)).toList,
              c ≠ mark := by
            rw [String.toList_intercalate]
            refine forall_mem_intercalate (fun c hc he => hseparator (he ▸ hc)) ?_
            intro part hpart c hc he
            obtain ⟨literal, hliteral, rfl⟩ := List.mem_map.mp hpart
            obtain ⟨v, hv, rfl⟩ := List.mem_map.mp hliteral
            exact not_mem_quote hmark (h v hv) (he ▸ hc)
          show mark ∉ ("z.enum([" ++ ", ".intercalate ((value :: values).map quote) ++ "])").toList
          rw [String.toList_append, String.toList_append, List.mem_append, List.mem_append]
          exact not_or.mpr ⟨not_or.mpr ⟨hopen, fun hmem => hliterals mark hmem rfl⟩, hclose⟩
  | array rules items =>
      show mark ∉ (Base.array (Base.element rules.item)).text.toList
      cases rules.item <;> exact not_mem_code hmark (by decide)
  | string _ => exact not_mem_code hmark (by decide : "z.string()".toList.all isCodeChar = true)
  | number _ => exact not_mem_code hmark (by decide : "z.number()".toList.all isCodeChar = true)
  | boolean  => exact not_mem_code hmark (by decide : "z.boolean()".toList.all isCodeChar = true)
  | date _   => exact not_mem_code hmark (by decide : "z.date()".toList.all isCodeChar = true)

/-- **A character of a field's expression** belongs to its code or to a text of the field. -/
theorem not_mem_text_ofField {field : Field} (h : ∀ text ∈ field.texts, mark ∉ text.toList) :
    mark ∉ (ofField field).text.toList := by
  have hrules : ∀ text ∈ field.rules.texts, mark ∉ text.toList :=
    fun text htext => h text (List.mem_append_right _ htext)
  have hdefault : ∀ text ∈ field.defaultValue.toList, mark ∉ text.toList :=
    fun text htext => h text (List.mem_append_left _ (List.mem_append_right _ htext))
  have hmethods : ∀ method ∈ (slotsOf field.rules ++ modifierSlots field).map Slot.method,
      mark ∉ method.toList := by
    intro method hmethod
    rw [methods_field] at hmethod
    exact not_mem_code hmark (isCodeChar_methods _ method hmethod)
  rw [toList_text_ofField, List.mem_append, not_or]
  exact ⟨not_mem_text_base hmark hrules, not_mem_slotsText hmark hmethods
    (List.forall_mem_append.mpr ⟨lacks_slotsOf hmark hrules, lacks_modifierSlots hmark hdefault⟩)⟩

end

end SchemaForge.Zod
