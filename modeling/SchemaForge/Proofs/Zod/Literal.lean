import SchemaForge.Proofs.Text.Run
import SchemaForge.Zod.Chain

/-!
# `Proofs.Zod.Literal` — literals and regular expressions in a chain

A string literal ends at its first quote that is not escaped, so it can be told from what follows
it. The body of a regular expression stands in the text as it is and may look like the end of the
expression and more calls. It is told from what follows by counting quotes: after the true end, the
rest of a chain is code with whole literals; behind a slash and a parenthesis *inside* the body the
rest would have to start inside a literal, and then it could not end outside of one.

## Contents
- **Literals.** `quote_append_inj`, `dateText_append_inj`.
- **Scanning.** `step?` and `scan?`, a scanner that tells code from literals and escapes.
- **Code.** `IsCode`, texts without a slash outside of literals.
- **Bodies.** `body_append_inj`.
-/

namespace SchemaForge.Zod

open Text

/-! ## Literals -/

theorem toList_quote_append (text : String) (rest : List Char) :
    (quote text).toList ++ rest = '\'' :: (Quoted.escape text.toList ++ '\'' :: rest) := by
  unfold quote
  simp

/-- A literal is told from what follows it. -/
theorem quote_append_inj {text text' : String} {rest rest' : List Char}
    (h : (quote text).toList ++ rest = (quote text').toList ++ rest') :
    text = text' ∧ rest = rest' := by
  have hread := congrArg Quoted.unquote? h
  rw [toList_quote_append, toList_quote_append, Quoted.unquote?, Quoted.unquote?,
    Quoted.unescape?_escape, Quoted.unescape?_escape, Option.some.injEq, Prod.mk.injEq] at hread
  exact ⟨String.toList_inj.mp hread.1, hread.2⟩

theorem toList_dateText_append (iso : String) (rest : List Char) :
    (dateText iso).toList ++ rest
      = "new Date(".toList ++ '\'' :: (iso.toList ++ '\'' :: ')' :: rest) := by
  unfold dateText
  simp

/-- A date is told from what follows it, if its text has no quote. -/
theorem dateText_append_inj {iso iso' : String} {rest rest' : List Char}
    (hquote : '\'' ∉ iso.toList) (hquote' : '\'' ∉ iso'.toList)
    (h : (dateText iso).toList ++ rest = (dateText iso').toList ++ rest') :
    iso = iso' ∧ rest = rest' := by
  rw [toList_dateText_append, toList_dateText_append] at h
  have hinside := (List.cons.inj (List.append_cancel_left h)).2
  obtain ⟨hiso, hrest⟩ := mark_append_inj hinside hquote hquote'
  exact ⟨String.toList_inj.mp hiso, (List.cons.inj hrest).2⟩

/-! ## Scanning -/

/-- Where a scanner is: in code, in a literal, or behind a backslash in a literal. -/
inductive Place where
  | code
  | literal
  | escape
deriving DecidableEq

/-- The place after a character. Code has no slash and no backslash, and only a backslash and a
    quote are ever escaped. -/
def step? : Place → Char → Option Place
  | .code,    c => if c = '\'' then some .literal else if c = '/' ∨ c = '\\' then none else some .code
  | .literal, c => if c = '\'' then some .code else if c = '\\' then some .escape else some .literal
  | .escape,  c => if c = '\'' ∨ c = '\\' then some .literal else none

/-- The place after a text. -/
def scan? (place : Place) (text : List Char) : Option Place := text.foldlM step? place

theorem scan?_cons (place : Place) (c : Char) (text : List Char) :
    scan? place (c :: text) = (step? place c).bind fun place => scan? place text :=
  List.foldlM_cons

theorem scan?_append (place : Place) (text more : List Char) :
    scan? place (text ++ more) = (scan? place text).bind fun place => scan? place more :=
  List.foldlM_append

/-! ## Code -/

/-- Code whose literals are whole. -/
inductive IsCode : List Char → Prop where
  | nil : IsCode []
  | char {c : Char} {rest : List Char} (hc : c ≠ '\'' ∧ c ≠ '/' ∧ c ≠ '\\') (h : IsCode rest) :
      IsCode (c :: rest)
  | literal (text : List Char) {rest : List Char} (h : IsCode rest) :
      IsCode ('\'' :: (Quoted.escape text ++ '\'' :: rest))

theorem IsCode.append {text more : List Char} (h : IsCode text) (hmore : IsCode more) :
    IsCode (text ++ more) := by
  induction h with
  | nil => exact hmore
  | char hc _ ih => exact IsCode.char hc ih
  | literal text _ ih =>
      rw [List.cons_append, List.append_assoc, List.cons_append]
      exact IsCode.literal text ih

theorem isCode_of_forall {text : List Char} (h : ∀ c ∈ text, c ≠ '\'' ∧ c ≠ '/' ∧ c ≠ '\\') :
    IsCode text := by
  induction text with
  | nil => exact IsCode.nil
  | cons c text ih =>
      exact IsCode.char (h c List.mem_cons_self) (ih fun d hd => h d (List.mem_cons_of_mem c hd))

theorem isCode_quote (text : String) : IsCode (quote text).toList := by
  have hcode := IsCode.literal text.toList IsCode.nil
  rw [← toList_quote_append, List.append_nil] at hcode
  exact hcode

theorem step?_code {c : Char} (hc : c ≠ '\'' ∧ c ≠ '/' ∧ c ≠ '\\') :
    step? .code c = some .code := by
  rw [step?, if_neg hc.1, if_neg (not_or.mpr hc.2)]

theorem step?_literal {c : Char} (hquote : c ≠ '\'') (hslash : c ≠ '\\') :
    step? .literal c = some .literal := by
  rw [step?, if_neg hquote, if_neg hslash]

/-- The inside of a literal is read up to its closing quote. -/
theorem scan?_literal (text rest : List Char) :
    scan? .literal (Quoted.escape text ++ '\'' :: rest) = scan? .code rest := by
  induction text with
  | nil => rfl
  | cons c text ih =>
      unfold Quoted.escape
      split
      · next hspecial =>
          have hescape : step? .escape c = some .literal := if_pos hspecial.symm
          rw [List.cons_append, List.cons_append, scan?_cons]
          show scan? .escape _ = _
          rw [scan?_cons, hescape]
          exact ih
      · next hplain =>
          rw [not_or] at hplain
          rw [List.cons_append, scan?_cons, step?_literal hplain.2 hplain.1]
          exact ih

/-- The inside of a literal, taken for code, either is none or leads into a literal. -/
theorem scan?_code_of_literal (text rest : List Char) :
    scan? .code (Quoted.escape text ++ '\'' :: rest) = none ∨
      scan? .code (Quoted.escape text ++ '\'' :: rest) = scan? .literal rest := by
  induction text with
  | nil => exact Or.inr rfl
  | cons c text ih =>
      unfold Quoted.escape
      split
      · exact Or.inl rfl
      · next hplain =>
          rw [not_or] at hplain
          rw [List.cons_append, scan?_cons]
          by_cases hslash : c = '/'
          · rw [hslash]
            exact Or.inl rfl
          · rw [step?_code ⟨hplain.2, hslash, hplain.1⟩]
            exact ih

/-- Code ends outside of literals. -/
theorem IsCode.scan?_code {text : List Char} (h : IsCode text) : scan? .code text = some .code := by
  induction h with
  | nil => rfl
  | char hc _ ih =>
      rw [scan?_cons, step?_code hc]
      exact ih
  | literal text _ ih =>
      rw [scan?_cons]
      show scan? .literal _ = _
      rw [scan?_literal, ih]

/-- **Code that starts inside a literal does not end outside of one.** -/
theorem IsCode.scan?_literal_ne {text : List Char} (h : IsCode text) :
    scan? .literal text ≠ some .code := by
  induction h with
  | nil => exact fun h => nomatch h
  | char hc _ ih =>
      rw [scan?_cons, step?_literal hc.1 hc.2.2]
      exact ih
  | literal text _ ih =>
      rw [scan?_cons]
      show scan? .code _ ≠ _
      rcases scan?_code_of_literal text _ with hnone | hliteral
      · rw [hnone]
        exact fun h => nomatch h
      · rw [hliteral]
        exact ih

/-- Behind a slash and a parenthesis in code there is no code. -/
theorem IsCode.not_slash {front back : List Char} (h : IsCode (front ++ '/' :: ')' :: back))
    (hback : IsCode back) : False := by
  have hscan := h.scan?_code
  rw [scan?_append] at hscan
  cases hfront : scan? .code front with
  | none =>
      rw [hfront] at hscan
      exact nomatch hscan
  | some place =>
      rw [hfront, Option.bind_some] at hscan
      cases place with
      | code    => exact nomatch hscan
      | literal => exact hback.scan?_literal_ne hscan
      | escape  => exact nomatch hscan

/-! ## Bodies -/

/-- What follows a body is not found again further to the right. -/
theorem slash_append_inj {more rest rest' : List Char}
    (h : '/' :: ')' :: rest' = more ++ '/' :: ')' :: rest) (hrest : IsCode rest)
    (hrest' : IsCode rest') : more = [] ∧ rest = rest' := by
  cases more with
  | nil =>
      obtain rfl : rest' = rest := by simpa using h
      exact ⟨rfl, rfl⟩
  | cons c more =>
      cases more with
      | nil =>
          have : ')' = '/' := (List.cons.inj (List.cons.inj h).2).1
          exact absurd this (by decide)
      | cons d more =>
          have heq : rest' = more ++ '/' :: ')' :: rest := (List.cons.inj (List.cons.inj h).2).2
          rw [heq] at hrest'
          exact absurd hrest (hrest'.not_slash)

/-- **The body of a regular expression is told from the code that follows it.** -/
theorem body_append_inj {body body' rest rest' : List Char} (hrest : IsCode rest)
    (hrest' : IsCode rest')
    (h : body ++ '/' :: ')' :: rest = body' ++ '/' :: ')' :: rest') :
    body = body' ∧ rest = rest' := by
  rcases List.append_eq_append_iff.mp h with ⟨more, rfl, hmore⟩ | ⟨more, rfl, hmore⟩
  · obtain ⟨rfl, heq⟩ := slash_append_inj hmore hrest' hrest
    exact ⟨(List.append_nil _).symm, heq.symm⟩
  · obtain ⟨rfl, heq⟩ := slash_append_inj hmore hrest hrest'
    exact ⟨List.append_nil _, heq⟩

end SchemaForge.Zod
