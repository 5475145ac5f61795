import SchemaForge.Proofs.Zod.Base
import SchemaForge.TypeScript.Ty

/-!
# `Proofs.Emission.Literals` — the literals of an enumeration in emitted code

An enumeration is written twice: as the argument of a base constructor, with commas, and as a union, with
bars. In either text a literal ends at the first quote that no backslash stands before, whatever its value
is, so all literals are found again by reading one at every quote. Neither the separators nor what is written
around the list has a quote, and no other base and no other type has one at all. So a text tells the values
and their order, the validator and the type of an enumeration carry the same list, and the text of a type
tells the kind of its rules.

## Contents
- **Reading.** `unquoteAll?`, the values of the literals in a text; `unquoteAll?_quote_append` reads one.
- **Lists.** `unquoteAll?_intercalate`, for any separator without a quote.
- **Rules.** `Rules.literals`, `unquoteAll?_base` and `unquoteAll?_type`.
- **Types.** `sameBase_of_text_eq`: what the text of a type tells of its rules.
- **The whole.** `literals_selfDelimiting`.
-/

namespace SchemaForge

namespace Quoted

/-! ## Reading -/

/-- Behind a literal there is less to read. -/
theorem length_lt_of_unescape? {text value after : List Char}
    (h : unescape? text = some (value, after)) : after.length < text.length := by
  fun_induction unescape? text generalizing value with
  | case1 => exact nomatch h
  | case2 rest =>
      obtain ⟨-, rfl⟩ := Prod.mk.inj (Option.some.inj h)
      exact Nat.lt_succ_self _
  | case3 c rest ih =>
      obtain ⟨⟨text, behind⟩, htext, hpair⟩ := Option.map_eq_some_iff.mp h
      obtain ⟨-, rfl⟩ := Prod.mk.inj hpair
      have hlt := ih htext
      simp only [List.length_cons]
      omega
  | case4 c rest _ _ ih =>
      obtain ⟨⟨text, behind⟩, htext, hpair⟩ := Option.map_eq_some_iff.mp h
      obtain ⟨-, rfl⟩ := Prod.mk.inj hpair
      have hlt := ih htext
      simp only [List.length_cons]
      omega

/-- The values of the literals in a text, from left to right, if each of them is closed. What stands between
    them is passed over. -/
def unquoteAll? : List Char → Option (List String)
  | []           => some []
  | '\'' :: rest =>
    match _ : unescape? rest with
    | some (value, after) => (unquoteAll? after).map (String.ofList value :: ·)
    | none                => none
  | _ :: rest    => unquoteAll? rest
termination_by text => text.length
decreasing_by
  · have hlt := length_lt_of_unescape? ‹unescape? rest = some _›
    exact Nat.lt_succ_of_lt hlt
  · exact Nat.lt_succ_self _

/-- **A literal is read whatever follows it**, and reading goes on behind it. -/
theorem unquoteAll?_quote_append (value : String) (rest : List Char) :
    unquoteAll? ((quote value).toList ++ rest) = (unquoteAll? rest).map (value :: ·) := by
  rw [Zod.toList_quote_append, unquoteAll?]
  split
  · next text after h =>
      rw [unescape?_escape] at h
      obtain ⟨rfl, rfl⟩ := Prod.mk.inj (Option.some.inj h)
      rw [String.ofList_toList]
  · next h =>
      rw [unescape?_escape] at h
      exact nomatch h

/-- A text without a quote is passed over. -/
theorem unquoteAll?_append {front : List Char} (h : '\'' ∉ front) (rest : List Char) :
    unquoteAll? (front ++ rest) = unquoteAll? rest := by
  induction front with
  | nil => rfl
  | cons c front ih =>
      rw [List.mem_cons, not_or] at h
      have hquote : c ≠ '\'' := fun hc => h.1 hc.symm
      rw [List.cons_append, ← ih h.2]
      simp [unquoteAll?]

theorem unquoteAll?_of_not_mem {text : List Char} (h : '\'' ∉ text) : unquoteAll? text = some [] := by
  rw [← List.append_nil text, unquoteAll?_append h, unquoteAll?]

/-! ## Lists -/

/-- **The literals of a list are read in their order**, if no quote stands between them. -/
theorem unquoteAll?_intercalate {separator : String} (hseparator : '\'' ∉ separator.toList)
    (values : List String) (rest : List Char) :
    unquoteAll? ((separator.intercalate (values.map quote)).toList ++ rest)
      = (unquoteAll? rest).map (values ++ ·) := by
  induction values with
  | nil => simp
  | cons value values ih =>
      by_cases hne : values.map quote = []
      · obtain rfl := List.map_eq_nil_iff.mp hne
        rw [List.map_singleton, String.intercalate_singleton, unquoteAll?_quote_append]
        rfl
      · rw [List.map_cons, String.intercalate_cons_of_ne_nil hne, String.toList_append,
          String.toList_append, List.append_assoc, List.append_assoc, unquoteAll?_quote_append,
          unquoteAll?_append hseparator, ih, Option.map_map]
        rfl

end Quoted

/-! ## Rules -/

open Quoted TypeScript

/-- The literals of a rule record: the values of an enumeration, and none of any other kind. -/
def Rules.literals : Rules → List String
  | .enum rules => rules.values
  | _           => []

/-- The base constructor of a rule record carries its literals. -/
theorem Zod.unquoteAll?_base (rules : Rules) :
    unquoteAll? (ofRules rules).base.text.toList = some rules.literals := by
  cases rules with
  | enum rules =>
      obtain ⟨values⟩ := rules
      cases values with
      | nil => exact unquoteAll?_of_not_mem (by decide)
      | cons value values =>
          show unquoteAll? ("z.enum([" ++ ", ".intercalate ((value :: values).map quote) ++ "])").toList
            = some (value :: values)
          rw [String.toList_append, String.toList_append, List.append_assoc,
            unquoteAll?_append (by decide), unquoteAll?_intercalate (by decide),
            unquoteAll?_of_not_mem (by decide), Option.map_some, List.append_nil]
  | array rules _ =>
      show unquoteAll? (Base.array (Base.element rules.item)).text.toList = some []
      cases rules.item <;> exact unquoteAll?_of_not_mem (by decide)
  | string _ => exact unquoteAll?_of_not_mem (by decide : '\'' ∉ "z.string()".toList)
  | number _ => exact unquoteAll?_of_not_mem (by decide : '\'' ∉ "z.number()".toList)
  | boolean  => exact unquoteAll?_of_not_mem (by decide : '\'' ∉ "z.boolean()".toList)
  | date _   => exact unquoteAll?_of_not_mem (by decide : '\'' ∉ "z.date()".toList)

/-- The type of a rule record carries its literals. -/
theorem TypeScript.unquoteAll?_type (rules : Rules) :
    unquoteAll? (Ty.ofRules rules).text.toList = some rules.literals := by
  cases rules with
  | enum rules =>
      obtain ⟨values⟩ := rules
      cases values with
      | nil => exact unquoteAll?_of_not_mem (by decide)
      | cons value values =>
          show unquoteAll? (" | ".intercalate ((value :: values).map quote)).toList
            = some (value :: values)
          rw [← List.append_nil (String.toList _), unquoteAll?_intercalate (by decide),
            unquoteAll?_of_not_mem List.not_mem_nil, Option.map_some, List.append_nil]
  | array rules _ =>
      show unquoteAll? (Ty.array (Ty.element rules.item)).text.toList = some []
      cases rules.item <;> exact unquoteAll?_of_not_mem (by decide)
  | string _ => exact unquoteAll?_of_not_mem (by decide : '\'' ∉ "string".toList)
  | number _ => exact unquoteAll?_of_not_mem (by decide : '\'' ∉ "number".toList)
  | boolean  => exact unquoteAll?_of_not_mem (by decide : '\'' ∉ "boolean".toList)
  | date _   => exact unquoteAll?_of_not_mem (by decide : '\'' ∉ "Date".toList)

/-! ## Types -/

/-- The type of a collection tells its elements, but not which ones are not primitive. -/
theorem text_array_eq_iff (item item' : Kind) :
    (Ty.array (Ty.element item)).text = (Ty.array (Ty.element item')).text
      ↔ Zod.plainItem item = Zod.plainItem item' := by
  cases item <;> cases item' <;> decide

/-- Where no literal is written, only the type of a collection has a bracket. -/
theorem bracket_mem_text_iff {rules : Rules} (h : rules.literals = []) :
    ']' ∈ (Ty.ofRules rules).text.toList ↔ rules.kind = .array := by
  cases rules with
  | enum rules =>
      obtain ⟨values⟩ := rules
      obtain rfl : values = [] := h
      decide
  | array rules _ => simp [Ty.ofRules, Ty.text, Rules.kind]
  | string _ => exact (by decide : ']' ∈ "string".toList ↔ Kind.string = .array)
  | number _ => exact (by decide : ']' ∈ "number".toList ↔ Kind.number = .array)
  | boolean  => exact (by decide : ']' ∈ "boolean".toList ↔ Kind.boolean = .array)
  | date _   => exact (by decide : ']' ∈ "Date".toList ↔ Kind.date = .array)

/-- **The text of a type tells the kind of its rules**, their literals and their elements. -/
theorem sameBase_of_text_eq {rules rules' : Rules}
    (h : (Ty.ofRules rules).text = (Ty.ofRules rules').text) : Zod.SameBase rules rules' := by
  have hread : rules.literals = rules'.literals := by
    have hboth := congrArg (fun text => unquoteAll? text.toList) h
    simpa only [unquoteAll?_type, Option.some.injEq] using hboth
  have harray : rules.literals = [] → (rules.kind = .array ↔ rules'.kind = .array) := by
    intro hnil
    rw [← bracket_mem_text_iff hnil, ← bracket_mem_text_iff (hread ▸ hnil), h]
  cases rules <;> cases rules'
  case enum.enum => exact congrArg EnumRules.mk hread
  case array.array => exact (text_array_eq_iff _ _).mp h
  -- the types of two other kinds are the same word, or only one of them has a bracket
  all_goals simp_all [Ty.ofRules, Ty.text, Ty.oneOf, Rules.literals, Rules.kind, Zod.SameBase]

/-- What the text of a type tells of its rules is all that it is made of. -/
theorem text_eq_of_sameBase {rules rules' : Rules} (h : Zod.SameBase rules rules') :
    (Ty.ofRules rules).text = (Ty.ofRules rules').text := by
  cases rules <;> cases rules' <;> try exact absurd h id
  case enum.enum =>
      obtain rfl := h
      rfl
  case array.array => exact (text_array_eq_iff _ _).mpr h
  all_goals rfl

/-! ## The whole -/

/-- **A literal ends at its own closing quote, and both kinds of code carry the same list.** Whatever its
    value is and whatever follows it, a literal is read back as its value and leaves the rest. So the base
    constructor of an enumeration and its type each tell the values and their order, and reading the literals
    of either gives the list. Two rule records have the same type exactly if they have the same kind, the same
    literals, and elements of the same kind, where enumerations and collections count as one kind of elements. -/
theorem literals_selfDelimiting :
    (∀ value rest : String,
      unquote? (quote value ++ rest).toList = some (value.toList, rest.toList)) ∧
    (∀ values values' : List String,
      ((Zod.ofRules (.oneOf values)).text = (Zod.ofRules (.oneOf values')).text ↔ values = values') ∧
      ((Ty.ofRules (.oneOf values)).text = (Ty.ofRules (.oneOf values')).text ↔ values = values')) ∧
    (∀ values : List String,
      unquoteAll? (Zod.ofRules (.oneOf values)).text.toList = some values ∧
      unquoteAll? (Ty.ofRules (.oneOf values)).text.toList = some values) ∧
    ∀ rules rules' : Rules,
      (Ty.ofRules rules).text = (Ty.ofRules rules').text ↔ Zod.SameBase rules rules' := by
  have hexpression : ∀ values : List String,
      unquoteAll? (Zod.ofRules (.oneOf values)).text.toList = some values := by
    intro values
    -- an enumeration has no calls behind its base
    have htext : (Zod.ofRules (.oneOf values)).text = (Zod.ofRules (.oneOf values)).base.text :=
      String.append_empty
    rw [htext]
    exact Zod.unquoteAll?_base (.oneOf values)
  have htype : ∀ values : List String,
      unquoteAll? (Ty.ofRules (.oneOf values)).text.toList = some values :=
    fun values => TypeScript.unquoteAll?_type (.oneOf values)
  refine ⟨?_, ?_, fun values => ⟨hexpression values, htype values⟩, ?_⟩
  · intro value rest
    rw [String.toList_append, Zod.toList_quote_append]
    exact unescape?_escape value.toList rest.toList
  · intro values values'
    constructor
    · refine ⟨fun h => ?_, fun h => h ▸ rfl⟩
      have hread := hexpression values
      rw [h, hexpression values'] at hread
      exact (Option.some.inj hread).symm
    · refine ⟨fun h => ?_, fun h => h ▸ rfl⟩
      have hread := htype values
      rw [h, htype values'] at hread
      exact (Option.some.inj hread).symm
  · intro rules rules'
    exact ⟨sameBase_of_text_eq, text_eq_of_sameBase⟩

/-- A value that looks like the end of its literal and the start of the next, and a backslash. -/
example :
    (Ty.ofRules (.oneOf ["a', 'b", "\\"])).text = "'a\\', \\'b' | '\\\\'" ∧
      unquoteAll? "'a\\', \\'b' | '\\\\'".toList = some ["a', 'b", "\\"] := by
  refine ⟨by decide, by cbv⟩

end SchemaForge
