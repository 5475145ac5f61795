import SchemaForge.Proofs.Comment.Deletion

/-!
# `Proofs.Comment.Description` — comments made of a description

A comment around a text is deleted with all of the text or, where the text has end marks of its own,
in pieces. What is left then does not depend on how the comment is written, except for its own marks
and white space. So whether a description is inert can be seen from the description alone, and a part
of the emitted code with comments shows the lines of the bare part, and no others exactly when its
descriptions are inert.

## Contents
- **Comments.** `IsShape`, how a comment is written, and `withoutBlockComments_comment`.
- **Inert descriptions.** `IsInert`, `isInert_iff` and `isInert_of_noClose`.
- **Parts.** `Documented`, a part with comments beside the part without, and its joins.
-/

namespace SchemaForge.Comment

open Text
open TypeScript.Import (NoClose noClose_of_not_mem)

/-! ## Comments around a text -/

/-- Nothing in the part ends a comment or starts one. -/
structure IsNeutral (part : List Char) : Prop where
  startsApart : StartsApart part
  inside : remnant true part = ([], true)
  outside : remnant false part = (part, false)

protected theorem IsNeutral.nil : IsNeutral [] where
  startsApart _ hc := nomatch hc
  inside := rfl
  outside := rfl

protected theorem IsNeutral.append {part rest : List Char} (h : IsNeutral part)
    (hrest : IsNeutral rest) : IsNeutral (part ++ rest) where
  startsApart := by
    cases part with
    | nil         => exact hrest.startsApart
    | cons c part => exact h.startsApart
  inside := by rw [remnant_append true part hrest.startsApart, h.inside, hrest.inside]; rfl
  outside := by rw [remnant_append false part hrest.startsApart, h.outside, hrest.outside]

/-- A line with its own star in a comment. -/
theorem isNeutral_line {line : String} (h : '*' ∉ line.toList) :
    IsNeutral (lineText (" * " ++ line)) := by
  have htext : lineText (" * " ++ line) = ' ' :: '*' :: ' ' :: (line.toList ++ ['\n']) := by
    simp [lineText]
  have hrest : '*' ∉ line.toList ++ ['\n'] := by simp [h]
  rw [htext]
  refine ⟨fun c hc => by obtain rfl := Option.some.inj hc; decide, ?_, ?_⟩
  · have hspace : NoClose (' ' :: (line.toList ++ ['\n'])) :=
      (noClose_of_not_mem hrest).cons fun hmark => absurd hmark.1 (by decide)
    have hstar : NoClose ('*' :: ' ' :: (line.toList ++ ['\n'])) :=
      hspace.cons fun hmark => absurd hmark.2 (by simp)
    exact remnant_of_noClose (hstar.cons fun hmark => absurd hmark.1 (by decide))
  · have hstart : ∀ rest, remnant false (' ' :: '*' :: ' ' :: rest)
        = (' ' :: '*' :: ' ' :: (remnant false rest).1, (remnant false rest).2) := fun _ => rfl
    rw [hstart, remnant_of_not_mem hrest]

theorem isNeutral_newline : IsNeutral ['\n'] :=
  ⟨fun c hc => by obtain rfl := Option.some.inj hc; decide, rfl, rfl⟩

theorem isNeutral_lines {lines : List String} (h : ∀ line ∈ lines, '*' ∉ line.toList) :
    IsNeutral ((lines.map (" * " ++ ·)).flatMap lineText) := by
  induction lines with
  | nil => exact .nil
  | cons line lines ih =>
      exact (isNeutral_line (h line (by simp))).append (ih fun l hl => h l (by simp [hl]))

/-- How a comment around a text is written: what opens it, behind white space, and the lines of their
    own between the text and the end mark. -/
structure IsShape (opening blanks more : List Char) : Prop where
  isBlank : ∀ c ∈ blanks, isBlank c = true
  opens : ∀ rest, remnant false (opening ++ rest) = (blanks ++ (remnant true rest).1, (remnant true rest).2)
  isNeutral : IsNeutral more

/-- What is left of a comment: the white space before it, what its text lets out and, if the text ends
    the comment, what was meant to be in the comment behind it. -/
def leftover (blanks more : List Char) (text : String) : List Char :=
  blanks ++ ((remnant true text.toList).1
    ++ if (remnant true text.toList).2 then [] else more ++ [' ', '*', '/'])

/-- The end of a comment is kept when no comment is open. -/
theorem resume_close (inside : Bool) {rest : List Char} (hrest : rest.head? ≠ some '*') :
    resume inside (' ' :: '*' :: '/' :: rest)
      = (if inside then [] else [' ', '*', '/']) ++ withoutBlockComments rest := by
  cases inside with
  | true  => rfl
  | false =>
      show withoutBlockComments (' ' :: '*' :: '/' :: rest) = _
      rw [withoutBlockComments_cons fun h => absurd h.1 (by decide),
        withoutBlockComments_cons fun h => absurd h.1 (by decide),
        withoutBlockComments_cons fun h => hrest h.2]
      rfl

/-- **Deleting a comment** leaves its leftover, whatever text it is made of. -/
theorem withoutBlockComments_comment {opening blanks more : List Char}
    (h : IsShape opening blanks more) (text : String) {rest : List Char}
    (hrest : rest.head? ≠ some '*') :
    withoutBlockComments (opening ++ (text.toList ++ more) ++ ' ' :: '*' :: '/' :: rest)
      = leftover blanks more text ++ withoutBlockComments rest := by
  have hapart : StartsApart (' ' :: '*' :: '/' :: rest) := fun c hc => by
    obtain rfl := Option.some.inj hc
    decide
  have hread := resume_append false (opening ++ (text.toList ++ more)) hapart
    fun hclose => hclose ⟨[' '], rest, rfl⟩
  rw [h.opens, remnant_append true text.toList h.isNeutral.startsApart, resume_close _ hrest] at hread
  refine hread.trans ?_
  rw [leftover]
  -- behind the text, the other lines are still in the comment or stay with the end mark
  cases (remnant true text.toList).2 with
  | true  => simp [h.isNeutral.inside]
  | false => simp [h.isNeutral.outside]

/-! ## Inert descriptions -/

/-- Deleting the comment made of a text leaves nothing but white space. -/
def IsInert (text : String) : Prop :=
  ∀ c ∈ withoutBlockComments ("/** ".toList ++ text.toList ++ " */".toList), isBlank c = true

instance : DecidablePred IsInert := fun text =>
  decidable_of_iff
    ((withoutBlockComments ("/** ".toList ++ text.toList ++ " */".toList)).all isBlank = true)
    List.all_eq_true

/-- Whether a comment leaves only white space does not depend on how it is written. -/
theorem forall_mem_leftover_iff {blanks : List Char} (hblanks : ∀ c ∈ blanks, isBlank c = true)
    (more : List Char) (text : String) :
    (∀ c ∈ leftover blanks more text, isBlank c = true)
      ↔ (remnant true text.toList).2 = true ∧
        ∀ c ∈ (remnant true text.toList).1, isBlank c = true := by
  rw [leftover, List.forall_mem_append, List.forall_mem_append]
  cases (remnant true text.toList).2 with
  | true  => simpa using fun _ => hblanks
  | false =>
      -- the star of the end mark stays
      refine iff_of_false (fun hall => ?_) fun hboth => nomatch hboth.1
      exact absurd (hall.2.2 '*' (by simp)) (by decide)

/-- The comment of one line, as the definition of an inert text has it. -/
theorem isShape_line : IsShape "/** ".toList [] [] where
  isBlank := List.forall_mem_nil _
  opens := fun _ => rfl
  isNeutral := .nil

/-- The comment of a member. -/
theorem isShape_member : IsShape "  /** ".toList [' ', ' '] [] where
  isBlank := List.forall_mem_cons.mpr ⟨isBlank_space, List.forall_mem_singleton.mpr isBlank_space⟩
  opens := fun _ => rfl
  isNeutral := .nil

/-- Every comment made of a text shows whether the text is inert. -/
theorem isInert_iff {blanks : List Char} (hblanks : ∀ c ∈ blanks, isBlank c = true)
    (more : List Char) (text : String) :
    IsInert text ↔ ∀ c ∈ leftover blanks more text, isBlank c = true := by
  have hdelete := withoutBlockComments_comment isShape_line text
    (by simp : ([] : List Char).head? ≠ some '*')
  have htext : "/** ".toList ++ text.toList ++ " */".toList
      = "/** ".toList ++ (text.toList ++ []) ++ [' ', '*', '/'] := by
    rw [List.append_nil]
    rfl
  rw [forall_mem_leftover_iff hblanks, ← forall_mem_leftover_iff (List.forall_mem_nil _) [], IsInert,
    htext, hdelete]
  simp [withoutBlockComments, withoutCommentsAfter]

/-- **A description without an end mark is inert.** -/
theorem isInert_of_noClose {text : String} (h : NoClose text.toList) :
    IsInert text := by
  rw [isInert_iff (List.forall_mem_nil _) [], leftover, remnant_of_noClose h]
  exact List.forall_mem_nil _

/-! ## Parts of emitted code -/

/-- The visible lines of a text without its block comments. -/
def codeLines (text : List Char) : List (List Char) := visibleLines (withoutBlockComments text)

/-- The part with comments shows the lines of the bare part, and no others exactly when the given
    descriptions are inert. Both are whole lines, in front of any text. -/
def Documented (descriptions : List String) (noted bare : List Char) : Prop :=
  ∃ shown own : List (List Char),
    (∀ rest, codeLines (noted ++ rest) = shown ++ codeLines rest) ∧
    (∀ rest, visibleLines (bare ++ rest) = own ++ visibleLines rest) ∧
    own.Sublist shown ∧ (shown = own ↔ ∀ text ∈ descriptions, IsInert text)

namespace Documented

variable {descriptions others : List String} {noted bare noted' bare' : List Char}

protected theorem nil : Documented [] [] [] :=
  ⟨[], [], fun _ => rfl, fun _ => rfl, List.Sublist.refl _, by simp⟩

/-- Parts are joined: lines are only ever added, so none are added exactly when neither part adds any. -/
protected theorem append (h : Documented descriptions noted bare)
    (h' : Documented others noted' bare') :
    Documented (descriptions ++ others) (noted ++ noted') (bare ++ bare') := by
  obtain ⟨shown, own, hnoted, hbare, hsub, hiff⟩ := h
  obtain ⟨shown', own', hnoted', hbare', hsub', hiff'⟩ := h'
  refine ⟨shown ++ shown', own ++ own', fun rest => ?_, fun rest => ?_, hsub.append hsub', ?_⟩
  · rw [List.append_assoc, hnoted, hnoted', List.append_assoc]
  · rw [List.append_assoc, hbare, hbare', List.append_assoc]
  · rw [List.forall_mem_append, ← hiff, ← hiff']
    refine ⟨fun he => ?_, fun ⟨he, he'⟩ => by rw [he, he']⟩
    have hlength := congrArg List.length he
    rw [List.length_append, List.length_append] at hlength
    have hle := hsub.length_le
    have hle' := hsub'.length_le
    exact ⟨(hsub.eq_of_length (by omega)).symm, (hsub'.eq_of_length (by omega)).symm⟩

/-- A line without a star is shown as it is. -/
theorem line {line : String} (h : '*' ∉ line.toList) :
    Documented [] (lineText line) (lineText line) := by
  refine ⟨visibleLines line.toList, visibleLines line.toList, fun rest => ?_, fun rest => ?_,
    List.Sublist.refl _, by simp⟩
  · rw [codeLines, lineText, List.append_assoc, List.singleton_append,
      withoutBlockComments_append h (by simp), withoutBlockComments_newline,
      visibleLines_append_cons, codeLines]
  · rw [lineText, List.append_assoc]
    exact visibleLines_append_cons _ _

/-- Lines without stars are shown as they are. -/
theorem lines {lines : List String} (h : ∀ line ∈ lines, '*' ∉ line.toList) :
    Documented [] (lines.flatMap lineText) (lines.flatMap lineText) := by
  induction lines with
  | nil => exact .nil
  | cons first lines ih =>
      exact (line (h first (by simp))).append (ih fun l hl => h l (by simp [hl]))

/-- A comment adds nothing exactly when its text is inert. -/
theorem comment {opening blanks more : List Char} (h : IsShape opening blanks more)
    (text : String) : Documented [text] (opening ++ (text.toList ++ more) ++ [' ', '*', '/', '\n']) [] := by
  refine ⟨visibleLines (leftover blanks more text), [], fun rest => ?_, fun rest => rfl,
    List.nil_sublist _, ?_⟩
  · rw [List.append_assoc]
    show codeLines (opening ++ (text.toList ++ more) ++ ' ' :: '*' :: '/' :: '\n' :: rest) = _
    rw [codeLines, withoutBlockComments_comment h text (by simp), withoutBlockComments_newline,
      visibleLines_append_cons, codeLines]
  · rw [List.forall_mem_singleton, isInert_iff h.isBlank more, visibleLines_eq_nil_iff]

/-- The block comment of a description. -/
theorem block? (description : Option String) (more : List String)
    (h : ∀ line ∈ more, '*' ∉ line.toList) :
    Documented description.toList ((Comment.block? description more).flatMap lineText) [] := by
  cases description with
  | none      => exact .nil
  | some text =>
      have hshape : IsShape "/**\n * ".toList [] ('\n' :: (more.map (" * " ++ ·)).flatMap lineText) :=
        ⟨List.forall_mem_nil _, fun _ => rfl,
          (isNeutral_newline).append (isNeutral_lines h)⟩
      have hcomment := comment hshape text
      simpa [Comment.block?, Comment.block, lineText] using hcomment

/-- The comment of a member. -/
theorem member? (description : Option String) :
    Documented description.toList ((Comment.member? description).flatMap lineText) [] := by
  cases description with
  | none      => exact .nil
  | some text =>
      have hcomment := comment isShape_member text
      simpa [Comment.member?, lineText] using hcomment

end Documented

end SchemaForge.Comment
