import SchemaForge.Proofs.Import.Produced
import SchemaForge.Proofs.Text.Split

/-!
# `Proofs.Comment.Deletion` — deleting block comments and empty lines

A block comment goes from `/*` through the first `*/` after it; a `/*` that no `*/` follows starts no
comment. Deleting the comments of a long text is done part by part: a part is read from inside or from
outside of a comment, leaves some of its characters, and ends inside or outside of one. A part may be
read alone when no mark goes across its end and a comment that it leaves open is closed later.

## Contents
- **Comments.** `withoutBlockComments`, and one step of the deletion.
- **Parts.** `remnant`, what a part leaves, and `resume_append`.
- **Lines.** `visibleLines` and `withoutBlankLines`.
-/

namespace SchemaForge.Text

open TypeScript.Import (closeComment? closeComment?_append eq_append_of_closeComment? NoClose
  noClose_of_not_mem)

/-! ## Deleting comments -/

/-- What follows the block comment at the front of a text. -/
def afterComment? : List Char → Option (List Char)
  | '/' :: '*' :: rest => (closeComment? rest).map fun (_, after) => after
  | _                  => none

/-- The text after its first `skipped` characters, without its block comments. -/
def withoutCommentsAfter : Nat → List Char → List Char
  | _,           []        => []
  | skipped + 1, _ :: rest => withoutCommentsAfter skipped rest
  | 0,           c :: rest =>
    match afterComment? (c :: rest) with
    | some after => withoutCommentsAfter (rest.length - after.length) rest
    | none       => c :: withoutCommentsAfter 0 rest

/-- The text without its block comments. -/
def withoutBlockComments (text : List Char) : List Char := withoutCommentsAfter 0 text

theorem withoutCommentsAfter_eq_drop (n : Nat) (text : List Char) :
    withoutCommentsAfter n text = withoutBlockComments (text.drop n) := by
  induction text generalizing n with
  | nil => cases n <;> rfl
  | cons c rest ih =>
      cases n with
      | zero   => rfl
      | succ n => exact ih n

/-- A character at which no comment starts is kept. -/
theorem withoutBlockComments_cons {c : Char} {rest : List Char}
    (h : ¬ (c = '/' ∧ rest.head? = some '*')) :
    withoutBlockComments (c :: rest) = c :: withoutBlockComments rest := by
  have hnone : afterComment? (c :: rest) = none := by
    unfold afterComment?
    split
    · next after he =>
        obtain ⟨rfl, rfl⟩ := List.cons.inj he
        exact absurd ⟨rfl, rfl⟩ h
    · rfl
  rw [withoutBlockComments, withoutCommentsAfter, hnone]
  rfl

theorem withoutBlockComments_newline (rest : List Char) :
    withoutBlockComments ('\n' :: rest) = '\n' :: withoutBlockComments rest :=
  withoutBlockComments_cons fun h => absurd h.1 (by decide)

theorem not_noClose_append (front : List Char) {tail : List Char} (h : ¬ NoClose tail) :
    ¬ NoClose (front ++ tail) :=
  fun hlong => h (hlong.mono (List.suffix_append front tail).isInfix)

theorem exists_closeComment? {text : List Char} (h : ¬ NoClose text) :
    ∃ inside after, closeComment? text = some (inside, after) := by
  fun_induction closeComment? text with
  | case1 => exact absurd (noClose_of_not_mem List.not_mem_nil) h
  | case2 rest => exact ⟨[], rest, rfl⟩
  | case3 c rest hmark ih =>
      have hrest : ¬ NoClose rest := by
        refine fun hrest => h (hrest.cons ?_)
        rintro ⟨rfl, hhead⟩
        obtain ⟨tail, rfl⟩ := List.head?_eq_some_iff.mp hhead
        exact hmark tail rfl rfl
      obtain ⟨inside, after, hclose⟩ := ih hrest
      exact ⟨c :: inside, after, by rw [hclose]; rfl⟩

/-! ## Reading part by part -/

/-- What is left of a text that starts inside or outside of a comment. -/
def resume : Bool → List Char → List Char
  | false, text => withoutBlockComments text
  | true,  text =>
    match closeComment? text with
    | some (_, after) => withoutBlockComments after
    | none            => []

/-- A comment that is closed later is deleted from its start. -/
theorem withoutBlockComments_open {rest : List Char} (h : ¬ NoClose rest) :
    withoutBlockComments ('/' :: '*' :: rest) = resume true rest := by
  obtain ⟨inside, after, hclose⟩ := exists_closeComment? h
  have hafter : afterComment? ('/' :: '*' :: rest) = some after := by
    rw [afterComment?, hclose]
    rfl
  have hdrop : ('*' :: rest).drop (('*' :: rest).length - after.length) = after := by
    obtain ⟨-, rfl⟩ := eq_append_of_closeComment? hclose
    rw [show '*' :: (inside ++ '*' :: '/' :: after) = ('*' :: (inside ++ ['*', '/'])) ++ after by simp,
      List.length_append, Nat.add_sub_cancel]
    exact List.drop_left
  rw [resume, hclose, withoutBlockComments, withoutCommentsAfter, hafter]
  show withoutCommentsAfter _ ('*' :: rest) = _
  rw [withoutCommentsAfter_eq_drop, hdrop]

theorem resume_inside_cons {c : Char} {rest : List Char} (h : ¬ (c = '*' ∧ rest.head? = some '/')) :
    resume true (c :: rest) = resume true rest := by
  have hstep : closeComment? (c :: rest)
      = (closeComment? rest).map fun (text, after) => (c :: text, after) := by
    rw [closeComment?]
    rintro after hc rfl
    exact h ⟨hc, rfl⟩
  rw [resume, resume, hstep]
  cases closeComment? rest <;> rfl

/-- What a part leaves when it is read from inside or from outside of a comment, and whether it ends
    inside one. -/
def remnant : Bool → List Char → List Char × Bool
  | inside, []                 => ([], inside)
  | true,   '*' :: '/' :: rest => remnant false rest
  | true,   _ :: rest          => remnant true rest
  | false,  '/' :: '*' :: rest => remnant true rest
  | false,  c :: rest          => (c :: (remnant false rest).1, (remnant false rest).2)

/-- No mark of a comment goes across into the text. -/
def StartsApart (text : List Char) : Prop :=
  ∀ c, text.head? = some c → c ≠ '*' ∧ c ≠ '/'

/-- No mark stands across the end of a part. -/
theorem not_mark_append {part rest : List Char} (hrest : StartsApart rest) {c first second : Char}
    (hsecond : second = '*' ∨ second = '/')
    (h : ∀ tail, c = first → part = second :: tail → False) :
    ¬ (c = first ∧ (part ++ rest).head? = some second) := by
  rintro ⟨hc, hhead⟩
  cases part with
  | cons d part =>
      obtain rfl := Option.some.inj hhead
      exact h part hc rfl
  | nil =>
      obtain ⟨hstar, hslash⟩ := hrest second hhead
      rcases hsecond with rfl | rfl
      · exact hstar rfl
      · exact hslash rfl

/-- **A part in front of a text that closes its comments** leaves what it leaves alone, and the text is
    read from where the part ends. -/
theorem resume_append (inside : Bool) (part : List Char) {rest : List Char}
    (hrest : StartsApart rest) (hclose : ¬ NoClose rest) :
    resume inside (part ++ rest) = (remnant inside part).1 ++ resume (remnant inside part).2 rest := by
  fun_induction remnant inside part with
  | case1 inside => rfl
  | case2 part ih => rw [← ih]; rfl
  | case3 c part hmark ih =>
      rw [← ih]
      exact resume_inside_cons (not_mark_append hrest (Or.inr rfl) hmark)
  | case4 part ih =>
      rw [← ih]
      exact withoutBlockComments_open (not_noClose_append part hclose)
  | case5 c part hmark ih =>
      rw [List.cons_append, List.cons_append, ← ih]
      exact withoutBlockComments_cons (not_mark_append hrest (Or.inl rfl) hmark)

/-! ## What a part leaves -/

/-- A part without an end mark leaves nothing inside a comment. -/
theorem remnant_of_noClose {part : List Char} (h : NoClose part) : remnant true part = ([], true) := by
  induction part with
  | nil => rfl
  | cons c part ih =>
      rw [remnant.eq_3 c part fun after hc hpart => ?_, ih h.tail]
      subst hc hpart
      exact h ⟨[], after, rfl⟩

/-- A part without a star is kept outside of comments. -/
theorem remnant_of_not_mem {part : List Char} (h : '*' ∉ part) : remnant false part = (part, false) := by
  induction part with
  | nil => rfl
  | cons c part ih =>
      rw [List.mem_cons, not_or] at h
      rw [remnant.eq_5 c part fun after _ hpart => h.2 (by rw [hpart]; simp), ih h.2]

/-- Two parts leave what the one and then the other leaves. -/
theorem remnant_append (inside : Bool) (part : List Char) {rest : List Char} (hrest : StartsApart rest) :
    remnant inside (part ++ rest)
      = ((remnant inside part).1 ++ (remnant (remnant inside part).2 rest).1,
          (remnant (remnant inside part).2 rest).2) := by
  fun_induction remnant inside part with
  | case1 inside => rfl
  | case2 part ih => rw [← ih]; rfl
  | case3 c part hmark ih =>
      rw [← ih, List.cons_append]
      refine remnant.eq_3 c _ fun after hc hafter => ?_
      exact not_mark_append hrest (Or.inr rfl) hmark ⟨hc, by rw [hafter]; rfl⟩
  | case4 part ih => rw [← ih]; rfl
  | case5 c part hmark ih =>
      rw [List.cons_append, remnant.eq_5 c _ fun after hc hafter => ?_, ih]
      · rfl
      · exact not_mark_append hrest (Or.inl rfl) hmark ⟨hc, by rw [hafter]; rfl⟩

/-- **A text without a star has no comments**: it is kept in front of every text that does not start
    with one. -/
theorem withoutBlockComments_append {part : List Char} (h : '*' ∉ part) {rest : List Char}
    (hrest : rest.head? ≠ some '*') :
    withoutBlockComments (part ++ rest) = part ++ withoutBlockComments rest := by
  induction part with
  | nil => rfl
  | cons c part ih =>
      rw [List.mem_cons, not_or] at h
      have hhead : (part ++ rest).head? ≠ some '*' := by
        cases part with
        | nil => exact hrest
        | cons d part => exact fun hd => h.2 (by simp [Option.some.inj hd])
      rw [List.cons_append, List.cons_append, withoutBlockComments_cons fun hc => hhead hc.2, ih h.2]

theorem withoutBlockComments_of_not_mem {text : List Char} (h : '*' ∉ text) :
    withoutBlockComments text = text := by
  have := withoutBlockComments_append h (by simp : ([] : List Char).head? ≠ some '*')
  rw [List.append_nil] at this
  rw [this]
  exact List.append_nil text

/-! ## Lines with something on them -/

/-- The lines of a text that are more than white space. -/
def visibleLines (text : List Char) : List (List Char) :=
  (split '\n' text).filter fun line => !line.all isBlank

/-- The text without the lines that are only white space. -/
def withoutBlankLines (text : List Char) : List Char := ['\n'].intercalate (visibleLines text)

/-- A line feed ends a line. -/
theorem visibleLines_append_cons (text rest : List Char) :
    visibleLines (text ++ '\n' :: rest) = visibleLines text ++ visibleLines rest := by
  rw [visibleLines, split_append_cons, List.filter_append]
  rfl

theorem forall_mem_split {P : Char → Prop} {separator : Char} {text : List Char}
    (hseparator : P separator) :
    (∀ piece ∈ split separator text, ∀ c ∈ piece, P c) ↔ ∀ c ∈ text, P c := by
  fun_induction split separator text with
  | case1 => simp
  | case2 rest ih => simpa [hseparator] using ih
  | case3 c rest _ hrest _ => exact absurd hrest (split_ne_nil separator rest)
  | case4 c rest _ first pieces hrest ih =>
      rw [hrest] at ih
      simp only [List.forall_mem_cons] at ih ⊢
      rw [← ih, and_assoc]

/-- Nothing is visible of white space only. -/
theorem visibleLines_eq_nil_iff {text : List Char} :
    visibleLines text = [] ↔ ∀ c ∈ text, isBlank c = true := by
  rw [← forall_mem_split (P := fun c => isBlank c = true) (by decide : isBlank '\n' = true),
    visibleLines, List.filter_eq_nil_iff]
  simp

/-- What is visible is on lines of its own. -/
theorem visibleLines_intercalate {lines : List (List Char)}
    (h : ∀ line ∈ lines, '\n' ∉ line ∧ line.all isBlank = false) :
    visibleLines (['\n'].intercalate lines) = lines := by
  have hline : ∀ line ∈ lines, visibleLines line = [line] := by
    intro line hline
    obtain ⟨hfeed, hvisible⟩ := h line hline
    rw [visibleLines, split_of_not_mem hfeed]
    simp [hvisible]
  induction lines with
  | nil => rfl
  | cons line lines ih =>
      cases lines with
      | nil => rw [List.intercalate_singleton]; exact hline line (by simp)
      | cons next lines =>
          have hrest := ih (fun l hl => h l (by simp [hl])) fun l hl => hline l (by simp [hl])
          rw [List.intercalate_cons_cons, List.append_assoc, List.singleton_append,
            visibleLines_append_cons, hline line (by simp), hrest, List.singleton_append]

theorem visibleLines_withoutBlankLines (text : List Char) :
    visibleLines (withoutBlankLines text) = visibleLines text := by
  refine visibleLines_intercalate fun line hline => ?_
  obtain ⟨hpiece, hvisible⟩ := List.mem_filter.mp hline
  exact ⟨(infix_of_mem_split hpiece).2, by simpa using hvisible⟩

/-- Two texts are the same without their empty lines when the same lines are visible. -/
theorem withoutBlankLines_eq_iff {text other : List Char} :
    withoutBlankLines text = withoutBlankLines other ↔ visibleLines text = visibleLines other := by
  refine ⟨fun h => ?_, fun h => by rw [withoutBlankLines, h]; rfl⟩
  rw [← visibleLines_withoutBlankLines text, h, visibleLines_withoutBlankLines]

end SchemaForge.Text
