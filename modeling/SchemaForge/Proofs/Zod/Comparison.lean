import SchemaForge.Proofs.Zod.Literal
import SchemaForge.Proofs.Zod.Number
import SchemaForge.Proofs.Zod.Slot

/-!
# `Proofs.Zod.Comparison` — the text of a chain determines its calls

Two chains with the same places are compared place by place. At each place the name of the method
tells whether it is called, and the argument is told from what follows it: most arguments can be
told from anything, the body of a regular expression only from code.

## Contents
- **Texts.** `slotsText`, and what the text of a chain starts with.
- **Arguments.** `Separates`, the arguments that are told from anything.
- **Code.** `regex_append_inj`: the body of a regular expression is told from code.
- **Chains.** `Separable`, and `slots_eq_of_text`.
-/

namespace SchemaForge.Zod

open Text

/-! ## The text of a chain -/

/-- The text of the calls that stand at their places. -/
def slotsText (slots : List Slot) : List Char :=
  (callsOf slots).flatMap fun call => call.text.toList

theorem toList_join_calls (calls : List Call) :
    (String.join (calls.map Call.text)).toList = calls.flatMap fun call => call.text.toList := by
  induction calls with
  | nil => rfl
  | cons call calls ih =>
      rw [List.map_cons, String.join_cons, String.toList_append, ih, List.flatMap_cons]

theorem slotsText_none (method : String) (slots : List Slot) :
    slotsText (⟨method, none⟩ :: slots) = slotsText slots := rfl

theorem slotsText_some (method argument : String) (slots : List Slot) :
    slotsText (⟨method, some argument⟩ :: slots)
      = '.' :: (method.toList ++ '(' :: (argument.toList ++ ')' :: slotsText slots)) := by
  unfold slotsText
  rw [callsOf_cons, List.flatMap_append]
  simp [Slot.calls, Call.text]

/-- A chain is empty, or it starts with the name of one of its methods. -/
theorem slotsText_head (slots : List Slot) :
    slotsText slots = [] ∨ ∃ method ∈ slots.map Slot.method, ∃ after,
      slotsText slots = '.' :: (method.toList ++ '(' :: after) := by
  induction slots with
  | nil => exact Or.inl rfl
  | cons slot slots ih =>
      obtain ⟨method, argument⟩ := slot
      cases argument with
      | none =>
          rw [slotsText_none]
          rcases ih with hnil | ⟨method', hmethod', after, htext⟩
          · exact Or.inl hnil
          · exact Or.inr ⟨method', List.mem_cons_of_mem _ hmethod', after, htext⟩
      | some argument =>
          exact Or.inr ⟨method, List.mem_cons_self, _, slotsText_some method argument slots⟩

/-- No method has a parenthesis in its name. -/
def HasPlainMethods (slots : List Slot) : Prop :=
  ∀ method ∈ slots.map Slot.method, '(' ∉ method.toList

/-- A chain does not start with a call of a method that is none of its own. -/
theorem slotsText_ne {method : String} {after : List Char} {slots : List Slot}
    (hplain : HasPlainMethods slots) (hparen : '(' ∉ method.toList)
    (hmethod : method ∉ slots.map Slot.method) :
    slotsText slots ≠ '.' :: (method.toList ++ '(' :: after) := by
  intro h
  rcases slotsText_head slots with hnil | ⟨method', hmethod', after', htext⟩
  · rw [hnil] at h
    exact nomatch h
  · rw [htext] at h
    have hname := (mark_append_inj (List.cons.inj h).2 (hplain method' hmethod') hparen).1
    rw [String.toList_inj] at hname
    rw [hname] at hmethod'
    exact hmethod hmethod'

/-! ## Arguments -/

/-- The arguments at two places are told from whatever follows them. -/
def Separates (slot slot' : Slot) : Prop :=
  ∀ argument argument', slot.argument = some argument → slot'.argument = some argument' →
    ∀ rest rest', argument.toList ++ ')' :: rest = argument'.toList ++ ')' :: rest' →
      argument = argument' ∧ rest = rest'

theorem separates_of_not_mem {slot slot' : Slot}
    (h : ∀ argument, slot.argument = some argument → ')' ∉ argument.toList)
    (h' : ∀ argument, slot'.argument = some argument → ')' ∉ argument.toList) :
    Separates slot slot' := by
  intro argument argument' hargument hargument' rest rest' heq
  obtain ⟨htext, hrest⟩ := mark_append_inj heq (h argument hargument) (h' argument' hargument')
  exact ⟨String.toList_inj.mp htext, hrest⟩

theorem separates_flag (method : String) (isSet isSet' : Bool) :
    Separates (flagSlot method isSet) (flagSlot method isSet') := by
  have hplain : ∀ isSet argument, (flagSlot method isSet).argument = some argument →
      ')' ∉ argument.toList := by
    intro isSet argument hargument
    cases isSet with
    | true =>
        obtain rfl := Option.some.inj hargument
        decide
    | false => exact nomatch hargument
  exact separates_of_not_mem (hplain isSet) (hplain isSet')

theorem separates_count (method : String) (value value' : Option UInt32) :
    Separates (countSlot method value) (countSlot method value') := by
  have hplain : ∀ value argument, (countSlot method value).argument = some argument →
      ')' ∉ argument.toList := by
    intro value argument hargument
    obtain ⟨n, -, rfl⟩ := Option.map_eq_some_iff.mp hargument
    exact fun hmem => absurd (isNumberChar_repr _ _ hmem) (by decide)
  exact separates_of_not_mem (hplain value) (hplain value')

theorem separates_number (method : String) (value value' : Option Binary64) :
    Separates (numberSlot method value) (numberSlot method value') := by
  have hplain : ∀ value argument, (numberSlot method value).argument = some argument →
      ')' ∉ argument.toList := by
    intro value argument hargument
    obtain ⟨x, -, rfl⟩ := Option.map_eq_some_iff.mp hargument
    exact paren_not_mem_text x
  exact separates_of_not_mem (hplain value) (hplain value')

theorem separates_quote (method : String) (text text' : Option String) :
    Separates (textSlot method quote text) (textSlot method quote text') := by
  intro argument argument' hargument hargument' rest rest' heq
  obtain ⟨_, -, rfl⟩ := Option.map_eq_some_iff.mp hargument
  obtain ⟨_, -, rfl⟩ := Option.map_eq_some_iff.mp hargument'
  obtain ⟨rfl, hrest⟩ := quote_append_inj heq
  exact ⟨rfl, (List.cons.inj hrest).2⟩

theorem separates_date (method : String) {text text' : Option String}
    (h : ∀ iso, text = some iso → '\'' ∉ iso.toList)
    (h' : ∀ iso, text' = some iso → '\'' ∉ iso.toList) :
    Separates (textSlot method dateText text) (textSlot method dateText text') := by
  intro argument argument' hargument hargument' rest rest' heq
  obtain ⟨iso, hiso, rfl⟩ := Option.map_eq_some_iff.mp hargument
  obtain ⟨iso', hiso', rfl⟩ := Option.map_eq_some_iff.mp hargument'
  obtain ⟨rfl, hrest⟩ := dateText_append_inj (h iso (eq_some_of_nonempty? hiso))
    (h' iso' (eq_some_of_nonempty? hiso')) heq
  exact ⟨rfl, (List.cons.inj hrest).2⟩

/-! ## Code after the body of a regular expression -/

/-- The call at a place is code. -/
def Slot.IsCode (slot : Slot) : Prop :=
  (∀ c ∈ slot.method.toList, c ≠ '\'' ∧ c ≠ '/' ∧ c ≠ '\\') ∧
    ∀ argument, slot.argument = some argument → Zod.IsCode argument.toList

theorem isCode_flagSlot {method : String} (isSet : Bool)
    (h : method.toList.all fun c => c ≠ '\'' ∧ c ≠ '/' ∧ c ≠ '\\') :
    (flagSlot method isSet).IsCode := by
  refine ⟨List.all_iff_forall_prop.mp h, fun argument hargument => ?_⟩
  cases isSet with
  | true =>
      obtain rfl := Option.some.inj hargument
      exact IsCode.nil
  | false => exact nomatch hargument

theorem isCode_quoteSlot {method : String} (text : Option String)
    (h : method.toList.all fun c => c ≠ '\'' ∧ c ≠ '/' ∧ c ≠ '\\') :
    (textSlot method quote text).IsCode := by
  refine ⟨List.all_iff_forall_prop.mp h, fun argument hargument => ?_⟩
  obtain ⟨text, -, rfl⟩ := Option.map_eq_some_iff.mp hargument
  exact isCode_quote text

theorem isCode_slotsText {slots : List Slot} (h : ∀ slot ∈ slots, slot.IsCode) :
    IsCode (slotsText slots) := by
  induction slots with
  | nil => exact IsCode.nil
  | cons slot slots ih =>
      have hslot := h slot List.mem_cons_self
      have hrest := ih fun slot' hslot' => h slot' (List.mem_cons_of_mem slot hslot')
      obtain ⟨method, argument⟩ := slot
      cases argument with
      | none => exact hrest
      | some argument =>
          rw [slotsText_some]
          refine IsCode.char (by decide) ((isCode_of_forall hslot.1).append ?_)
          exact IsCode.char (by decide) ((hslot.2 argument rfl).append
            (IsCode.char (by decide) hrest))

/-- The body of a regular expression is told from a chain that is code. -/
theorem regex_append_inj {text text' : Option String} {slots slots' : List Slot}
    (hcode : ∀ slot ∈ slots, slot.IsCode) (hcode' : ∀ slot ∈ slots', slot.IsCode) :
    ∀ argument argument',
      (textSlot "regex" (fun body => "/" ++ body ++ "/") text).argument = some argument →
      (textSlot "regex" (fun body => "/" ++ body ++ "/") text').argument = some argument' →
      argument.toList ++ ')' :: slotsText slots = argument'.toList ++ ')' :: slotsText slots' →
        argument = argument' ∧ slotsText slots = slotsText slots' := by
  intro argument argument' hargument hargument' h
  obtain ⟨body, -, rfl⟩ := Option.map_eq_some_iff.mp hargument
  obtain ⟨body', -, rfl⟩ := Option.map_eq_some_iff.mp hargument'
  have htext : ∀ (body : String) (rest : List Char),
      ("/" ++ body ++ "/").toList ++ ')' :: rest = '/' :: (body.toList ++ '/' :: ')' :: rest) := by
    intro body rest
    simp
  rw [htext, htext] at h
  obtain ⟨hbody, hrest⟩ := body_append_inj (isCode_slotsText hcode) (isCode_slotsText hcode')
    (List.cons.inj h).2
  rw [String.toList_inj] at hbody
  exact ⟨by rw [hbody], hrest⟩

/-! ## Chains -/

/-- The arguments of two chains are told from what follows them, place by place. -/
def Separable : List Slot → List Slot → Prop
  | slot :: slots, slot' :: slots' =>
    (∀ argument argument', slot.argument = some argument → slot'.argument = some argument' →
      argument.toList ++ ')' :: slotsText slots = argument'.toList ++ ')' :: slotsText slots' →
        argument = argument' ∧ slotsText slots = slotsText slots') ∧
      Separable slots slots'
  | _, _ => True

theorem separable_append {slots slots' more more' : List Slot}
    (h : List.Forall₂ Separates slots slots') (hmore : Separable more more') :
    Separable (slots ++ more) (slots' ++ more') := by
  induction h with
  | nil => exact hmore
  | cons hslot _ ih =>
      exact ⟨fun argument argument' harg harg' heq => hslot argument argument' harg harg' _ _ heq, ih⟩

/-- **The text of a chain determines what stands at each place.** -/
theorem slots_eq_of_text {slots slots' : List Slot}
    (hmethods : slots.map Slot.method = slots'.map Slot.method)
    (hnodup : (slots.map Slot.method).Nodup) (hplain : HasPlainMethods slots)
    (hseparable : Separable slots slots') (h : slotsText slots = slotsText slots') :
    slots = slots' := by
  induction slots generalizing slots' with
  | nil =>
      rw [List.map_nil] at hmethods
      exact (List.map_eq_nil_iff.mp hmethods.symm).symm
  | cons slot slots ih =>
      cases slots' with
      | nil => exact nomatch hmethods
      | cons slot' slots' =>
          obtain ⟨method, argument⟩ := slot
          obtain ⟨method', argument'⟩ := slot'
          rw [List.map_cons, List.map_cons, List.cons.injEq] at hmethods
          rw [List.map_cons, List.nodup_cons] at hnodup
          obtain ⟨rfl, hrest⟩ : method = method' ∧ _ := hmethods
          have hparen := hplain method List.mem_cons_self
          have hplainRest : HasPlainMethods slots :=
            fun name hname => hplain name (List.mem_cons_of_mem _ hname)
          have hplainRest' : HasPlainMethods slots' := by
            unfold HasPlainMethods
            rw [← hrest]
            exact hplainRest
          cases argument with
          | none =>
              cases argument' with
              | none => rw [ih hrest hnodup.2 hplainRest hseparable.2 h]
              | some argument' =>
                  -- a call on one side only: the other side has no call of this name left
                  rw [slotsText_none, slotsText_some] at h
                  exact absurd h (slotsText_ne hplainRest hparen hnodup.1)
          | some argument =>
              cases argument' with
              | none =>
                  rw [slotsText_none, slotsText_some] at h
                  exact absurd h.symm (slotsText_ne hplainRest' hparen (hrest ▸ hnodup.1))
              | some argument' =>
                  -- the same call on both sides: its argument is told from what follows
                  rw [slotsText_some, slotsText_some] at h
                  have hcall := (List.cons.inj (List.append_cancel_left (List.cons.inj h).2)).2
                  obtain ⟨rfl, htext⟩ := hseparable.1 argument argument' rfl rfl hcall
                  rw [ih hrest hnodup.2 hplainRest hseparable.2 htext]

end SchemaForge.Zod
