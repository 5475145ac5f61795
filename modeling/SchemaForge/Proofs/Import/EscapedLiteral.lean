import SchemaForge.Proofs.Import.EmittedType

/-!
# `Proofs.Import.EscapedLiteral` — comments behind escaped literals

A value is written between single quotes with a backslash before each of its backslashes and quotes. Where
comments are cut off, a quote ends a literal unless a backslash stands right before it. So no quote of the
value ends its literal, and the closing quote does, with one exception: behind a value that ends in a
backslash stands the second half of an escaped backslash, and the literal goes on. The union of some values
is therefore read as it was written, whatever comment follows, if none of them ends in a backslash; up to the
first value that does, it is one open literal, and a comment behind it stays.

## Contents
- **Literals.** `cutComment_escape`, `isUncut_quote` and `cutComment_openQuote`.
- **Comments behind a type.** `IsCutBehind`, and `isCutBehind_of_isUncut`.
- **Unions of literals.** `isCutBehind_literals_iff`.
-/

namespace SchemaForge.TypeScript.Import

open Text

/-! ## Literals -/

/-- **No quote of an escaped value ends its literal**, since each has its backslash. -/
theorem cutComment_escape (value : List Char) (previous : Char) (rest : List Char) :
    cutComment (some '\'') previous (Quoted.escape value ++ rest)
      = Quoted.escape value ++ cutComment (some '\'') (value.getLast?.getD previous) rest := by
  -- induction on the value; what carries it is the last character before the rest
  induction value generalizing previous with
  | nil => rfl
  | cons c value ih =>
      rw [List.getLast?_cons, Option.getD_some]
      by_cases hc : c = '\\' ∨ c = '\''
      · have hback : ¬ ('\\' = '\'' ∧ previous ≠ '\\') := fun hclose => absurd hclose.1 (by decide)
        have hopen : ¬ (c = '\'' ∧ '\\' ≠ '\\') := fun hclose => hclose.2 rfl
        rw [Quoted.escape, if_pos hc, List.cons_append, List.cons_append, cutComment, if_neg hback,
          cutComment, if_neg hopen, ih]
        rfl
      · have hopen : ¬ (c = '\'' ∧ previous ≠ '\\') := fun hclose => hc (Or.inr hclose.1)
        rw [Quoted.escape, if_neg hc, List.cons_append, cutComment, if_neg hopen, ih]
        rfl

/-- A literal is kept up to its closing quote, which ends it if no backslash stands before it. -/
theorem cutComment_quote (value : String) (previous : Char) (rest : List Char) :
    cutComment none previous ((quote value).toList ++ rest)
      = (quote value).toList
        ++ cutComment (if value.toList.getLast? = some '\\' then some '\'' else none) '\'' rest := by
  have hclose : ('\'' = '\'' ∧ value.toList.getLast?.getD '\'' ≠ '\\')
      ↔ ¬ value.toList.getLast? = some '\\' := by
    cases value.toList.getLast? with
    | none   => simp
    | some c => simp
  rw [toList_quote, List.cons_append, cutComment, if_pos (Or.inl rfl), List.append_assoc,
    cutComment_escape, List.singleton_append, cutComment]
  by_cases hlast : value.toList.getLast? = some '\\'
  · rw [if_neg fun h => hclose.mp h hlast, if_pos hlast]
    simp
  · rw [if_pos (hclose.mpr hlast), if_neg hlast]
    simp

/-- A literal whose value does not end in a backslash ends at its closing quote. -/
theorem isUncut_quote {value : String} (h : value.toList.getLast? ≠ some '\\') :
    IsUncut (quote value).toList := by
  intro previous rest
  rw [cutComment_quote, if_neg h, cutComment_previous '\'' previous]

/-- A literal whose value ends in a backslash goes on behind its closing quote. -/
theorem cutComment_openQuote {value : String} (h : value.toList.getLast? = some '\\')
    (previous : Char) (rest : List Char) :
    cutComment none previous ((quote value).toList ++ rest)
      = (quote value).toList ++ cutComment (some '\'') '\'' rest := by
  rw [cutComment_quote, if_pos h]

/-! ## Comments behind a type -/

/-- Nothing is cut off the text of a type, and a comment behind it is, up to the blank before it. -/
structure IsCutBehind (type : List Char) : Prop where
  alone : withoutComment type = type
  line : ∀ comment, withoutComment (type ++ (" //".toList ++ comment)) = type ++ [' ']
  block : ∀ comment, withoutComment (type ++ (" /*".toList ++ comment)) = type ++ [' ']

theorem isCutBehind_of_isUncut {type : List Char} (h : IsUncut type) : IsCutBehind type where
  alone := h.withoutComment_eq
  line := fun comment => by
    rw [withoutComment, h]
    rfl
  block := fun comment => by
    rw [withoutComment, h]
    rfl

/-! ## Unions of literals -/

/-- The union of some values up to its last literal. -/
theorem exists_isUncut_append {front : List String} (value : String)
    (h : ∀ value ∈ front, value.toList.getLast? ≠ some '\\') :
    ∃ before, IsUncut before ∧
      (Ty.ofRules (.oneOf (front ++ [value]))).text.toList = before ++ (quote value).toList := by
  have hfront : IsUncut (unionSeparator.intercalate (front.map fun value => (quote value).toList)) := by
    refine isUncut_intercalate fun literal hliteral => ?_
    obtain ⟨value, hvalue, rfl⟩ := List.mem_map.mp hliteral
    exact isUncut_quote (h value hvalue)
  rw [toList_text_oneOf (by simp), List.map_append, List.map_singleton]
  by_cases hnil : front = []
  · refine ⟨[], fun _ _ => cutComment_previous _ _ _, ?_⟩
    rw [hnil, List.map_nil, List.nil_append, List.intercalate_singleton, List.nil_append]
  · refine ⟨_, hfront.append isUncut_unionSeparator, ?_⟩
    rw [intercalate_concat (by simpa using hnil), List.append_assoc]

/-- Behind a value that ends in a backslash a comment stays. -/
theorem not_isCutBehind_of_getLast? {front : List String} {value : String}
    (h : ∀ value ∈ front, value.toList.getLast? ≠ some '\\')
    (hvalue : value.toList.getLast? = some '\\') :
    ¬ IsCutBehind (Ty.ofRules (.oneOf (front ++ [value]))).text.toList := by
  intro hcut
  obtain ⟨before, hbefore, htext⟩ := exists_isUncut_append value h
  have hkept : withoutComment (before ++ (quote value).toList ++ " //".toList)
      = before ++ (quote value).toList ++ " //".toList := by
    rw [withoutComment, List.append_assoc, hbefore, cutComment_openQuote hvalue]
    rfl
  have hline := hcut.line []
  rw [List.append_nil, htext, hkept] at hline
  exact absurd (List.append_cancel_left hline) (by decide)

/-- **Comments are cut off behind escaped literals exactly as long as no value ends in a backslash.**
    The union of some values, and that of any first ones of them, keeps its whole text and loses a comment
    behind it exactly if none of the values ends in a backslash. -/
theorem isCutBehind_literals_iff (values : List String) :
    (∀ front, front <+: values → front ≠ [] →
        IsCutBehind (Ty.ofRules (.oneOf front)).text.toList)
      ↔ ∀ value ∈ values, value.toList.getLast? ≠ some '\\' := by
  constructor
  · intro hcut
    by_contra hback
    -- the first value that ends in a backslash leaves its literal open
    obtain ⟨value, hfind⟩ : ∃ value,
        values.find? (fun value => value.toList.getLast? = some '\\') = some value := by
      refine Option.ne_none_iff_exists'.mp fun hnone => hback fun value hvalue => ?_
      simpa using List.find?_eq_none.mp hnone value hvalue
    obtain ⟨hvalue, front, back, hvalues, hfront⟩ := List.find?_eq_some_iff_append.mp hfind
    refine not_isCutBehind_of_getLast? (fun value hmem => by simpa using hfront value hmem)
      (of_decide_eq_true hvalue) (hcut (front ++ [value]) ⟨back, ?_⟩ (by simp))
    rw [hvalues, List.append_assoc, List.singleton_append]
  · intro hback front hfirst hne
    rw [toList_text_oneOf hne]
    refine isCutBehind_of_isUncut (isUncut_intercalate fun literal hliteral => ?_)
    obtain ⟨value, hvalue, rfl⟩ := List.mem_map.mp hliteral
    exact isUncut_quote (hback value (hfirst.subset hvalue))

/-- The escaped backslash takes the closing quote with it, and the comment stays in the literal. -/
example : withoutComment "'x\\\\' // note".toList = "'x\\\\' // note".toList := by decide

end SchemaForge.TypeScript.Import
