import Mathlib.Logic.Relation
import SchemaForge.Proofs.Import.TypeText
import SchemaForge.TypeScript.Import.Reader

/-!
# `Proofs.Import.NullMember` — null among the pieces of a union

The text of a type is split at its bars, and a piece that trims to `null` makes the field nullable. The
other pieces are put together again without it before anything else is read, so it does not matter where
such a piece stands, how many there are, or what white space is around them: the brackets, the literals and
the keyword are looked for in a text that has none of them. One step adds one piece; the induction is
over the steps.

## Contents
- **One piece.** `AddsNull`, what it keeps, and `allowsNull_iff`.
- **Any number of pieces.** `otherMembers_of_addsNull` and `fieldOfMember_addNull`.
-/

namespace SchemaForge.TypeScript.Import

open Text

/-! ## One piece -/

/-- One more piece that says null, anywhere among the pieces of a union. -/
inductive AddsNull : List (List Char) → List (List Char) → Prop where
  | intro (front back : List (List Char)) {piece : List Char} (h : trim piece = nullWord) :
      AddsNull (front ++ back) (front ++ piece :: back)

/-- A piece that says null has no bar. -/
theorem bar_not_mem_of_trim {piece : List Char} (h : trim piece = nullWord) : '|' ∉ piece := by
  intro hmem
  have hbar : '|' ∈ trim piece := mem_trim hmem (by decide)
  rw [h] at hbar
  exact absurd hbar (by decide)

/-- The members of a union that say something else than null. -/
def otherMembers (pieces : List (List Char)) : List (List Char) :=
  ((pieces.map trim).filter fun member => member ≠ []).filter fun member => member ≠ nullWord

theorem rulesOfType_eq (text : List Char) :
    rulesOfType text = rulesOfUnion (unionSeparator.intercalate (otherMembers (split '|' text))) :=
  rfl

/-- **Null is allowed exactly when a piece of the union says so.** -/
theorem allowsNull_iff {text : List Char} :
    allowsNull text = true ↔ ∃ piece ∈ split '|' text, trim piece = nullWord := by
  rw [allowsNull, List.contains_iff_mem, unionMembers, List.mem_filter, List.mem_map]
  constructor
  · rintro ⟨hpiece, -⟩
    exact hpiece
  · intro hpiece
    exact ⟨hpiece, by decide⟩

/-- What one more null leaves as it was. -/
theorem AddsNull.keeps {pieces pieces' : List (List Char)} (h : AddsNull pieces pieces') :
    otherMembers pieces' = otherMembers pieces := by
  obtain ⟨front, back, h⟩ := h
  simp [otherMembers, h]

/-- After one more null, some piece says null. -/
theorem AddsNull.exists_null {pieces pieces' : List (List Char)} (h : AddsNull pieces pieces') :
    ∃ piece ∈ pieces', trim piece = nullWord := by
  obtain ⟨front, back, h⟩ := h
  exact ⟨_, by simp, h⟩

/-- One more null brings no bar with it. -/
theorem AddsNull.bar_not_mem {pieces pieces' : List (List Char)} (h : AddsNull pieces pieces')
    (hpieces : ∀ piece ∈ pieces, '|' ∉ piece) : ∀ piece ∈ pieces', '|' ∉ piece := by
  obtain ⟨front, back, h⟩ := h
  intro piece hmem
  rcases List.mem_append.mp hmem with hmem | hmem
  · exact hpieces piece (List.mem_append_left back hmem)
  · rcases List.mem_cons.mp hmem with rfl | hmem
    · exact bar_not_mem_of_trim h
    · exact hpieces piece (List.mem_append_right front hmem)

/-! ## Any number of pieces -/

/-- What holds after any number of added nulls, at least one. -/
theorem otherMembers_of_addsNull {pieces pieces' : List (List Char)}
    (h : Relation.TransGen AddsNull pieces pieces') (hpieces : ∀ piece ∈ pieces, '|' ∉ piece) :
    otherMembers pieces' = otherMembers pieces ∧ (∀ piece ∈ pieces', '|' ∉ piece)
      ∧ ∃ piece ∈ pieces', trim piece = nullWord := by
  induction h with
  | single hstep => exact ⟨hstep.keeps, hstep.bar_not_mem hpieces, hstep.exists_null⟩
  | tail _ hstep ih =>
      obtain ⟨hkeeps, hbar, -⟩ := ih
      exact ⟨hstep.keeps.trans hkeeps, hstep.bar_not_mem hbar, hstep.exists_null⟩

/-- **Null is recognised anywhere in a union and changes nothing else.** A field is nullable exactly
    when some piece of its type trims to null. When pieces that trim to null are put anywhere among the
    pieces of its type, the field becomes nullable and is otherwise the same. -/
theorem fieldOfMember_addNull (name : List Char) (optional : Bool) (text : List Char)
    (description : Option String) :
    ((fieldOfMember name optional text description).nullable = true
        ↔ ∃ piece ∈ split '|' text, trim piece = nullWord) ∧
    ∀ pieces, Relation.TransGen AddsNull (split '|' text) pieces →
      fieldOfMember name optional (['|'].intercalate pieces) description
        = { fieldOfMember name optional text description with nullable := true } := by
  refine ⟨allowsNull_iff, fun pieces hpieces => ?_⟩
  obtain ⟨hothers, hbar, hnull⟩ := otherMembers_of_addsNull hpieces fun piece hpiece =>
    (infix_of_mem_split hpiece).2
  have hsplit : split '|' (['|'].intercalate pieces) = pieces := by
    obtain ⟨piece, hpiece, -⟩ := hnull
    exact split_intercalate (List.ne_nil_of_mem hpiece) hbar
  have hrules : rulesOfType (['|'].intercalate pieces) = rulesOfType text := by
    rw [rulesOfType_eq, rulesOfType_eq, hsplit, hothers]
  have hallows : allowsNull (['|'].intercalate pieces) = true := by
    rw [allowsNull_iff, hsplit]
    exact hnull
  unfold fieldOfMember
  rw [hrules, hallows]

/-- Null in front of two literals, between them behind an ideographic space, and a piece without a text:
    the literals are read as without it. -/
theorem fieldOfMember_addNull_literals :
    Relation.TransGen AddsNull (split '|' "'x' || \"y\"".toList)
      ["null".toList, "'x' ".toList, "\u3000null ".toList, [], " \"y\"".toList] ∧
    fieldOfMember "mark".toList true "'x' || \"y\"".toList none
      = { name := "mark", required := false, nullable := false, rules := .oneOf ["x", "y"] } ∧
    fieldOfMember "mark".toList true "null|'x' |\u3000null || \"y\"".toList none
      = { name := "mark", required := false, nullable := true, rules := .oneOf ["x", "y"] } := by
  have hfront : AddsNull ["'x' ".toList, [], " \"y\"".toList]
      ["null".toList, "'x' ".toList, [], " \"y\"".toList] := .intro [] _ rfl
  have hbetween : AddsNull ["null".toList, "'x' ".toList, [], " \"y\"".toList]
      ["null".toList, "'x' ".toList, "\u3000null ".toList, [], " \"y\"".toList] :=
    .intro ["null".toList, "'x' ".toList] _ rfl
  have hsteps := (Relation.TransGen.single hfront).tail hbetween
  refine ⟨hsteps, rfl, ?_⟩
  exact (fieldOfMember_addNull "mark".toList true "'x' || \"y\"".toList none).2 _ hsteps

end SchemaForge.TypeScript.Import
