import Mathlib.Data.List.Chain
import SchemaForge.Proofs.Import.Produced
import SchemaForge.Proofs.Import.Separator

/-!
# `Proofs.Import.BlockComment` — block comments between members

A body is a sequence of members that end with a semicolon and of block comments. A comment with a text is
read up to its end mark, as a doc comment if the text starts with a star, and changes at most the
description of the member after it. A comment without a text looks like the start of a doc comment: if
another comment follows anywhere, everything up to the end of that one is taken for its text, and the
members in between are lost. The reader is therefore in one of two states, before a part of the body or
behind such a comment, and the induction is over the parts, for both states at once.

## Contents
- **Descriptions.** `Schema.undescribed` and `bareFields`, what is read without descriptions.
- **End marks.** `IsMarkFree`, texts that neither hold an end mark nor start one.
- **Comments.** `bareFields_comment`, `bareFields_open` and `bareFields_closed`.
- **Parts.** `Part`, and `visibleMembers`, the members that are not lost.
- **Bodies.** `IsRead`, step by step, and `isRead_of_isCommented`.
- **Declarations.** `schema_blockComments`.
-/

namespace SchemaForge

def Field.undescribed (field : Field) : Field := { field with description := none }

/-- The schema without the descriptions of its fields. -/
def Schema.undescribed (schema : Schema) : Schema :=
  { schema with fields := schema.fields.map Field.undescribed }

end SchemaForge

namespace SchemaForge.TypeScript.Import

open Text

/-! ## Descriptions -/

/-- What is pending before some items shows in a description only. -/
theorem map_undescribed_fieldsOfItems (pending pending' : Option String) (list : List Item) :
    (fieldsOfItems pending list).map Field.undescribed
      = (fieldsOfItems pending' list).map Field.undescribed := by
  cases list with
  | nil => rfl
  | cons item list => cases item <;> rfl

/-- The fields of the members in a text, without their descriptions. -/
def bareFields (text : List Char) : List Field :=
  (fieldsOfItems none (items text)).map Field.undescribed

theorem bareFields_blanks {blanks : List Char} (h : ∀ c ∈ blanks, isBlank c = true)
    (rest : List Char) : bareFields (blanks ++ rest) = bareFields rest := by
  rw [bareFields, items_blanks h, bareFields]

theorem bareFields_member {written : WrittenMember} (h : written.IsWritten) (rest : List Char) :
    bareFields (written.text ++ ';' :: rest) = written.field none :: bareFields rest := by
  rw [bareFields, fieldsOfItems_endedMember h]
  rfl

/-! ## End marks -/

/-- A text that holds no end mark of a comment and ends in no half of one. -/
structure IsMarkFree (text : List Char) : Prop where
  noClose : NoClose text
  last : text.getLast? ≠ some '*'

theorem isMarkFree_of_not_mem {text : List Char} (h : '*' ∉ text) : IsMarkFree text where
  noClose := noClose_of_not_mem h
  last := fun hlast => h (List.mem_of_getLast? hlast)

/-- No end mark goes across the end of a text that is free of them. -/
theorem IsMarkFree.noClose_append {front back : List Char} (hfront : IsMarkFree front)
    (hback : NoClose back) : NoClose (front ++ back) := by
  induction front with
  | nil => exact hback
  | cons c front ih =>
      have hlast : front.getLast? ≠ some '*' := by
        intro hlast
        refine hfront.last ?_
        rw [List.getLast?_cons, hlast]
        rfl
      refine (ih ⟨hfront.noClose.tail, hlast⟩).cons ?_
      rintro ⟨rfl, hnext⟩
      cases front with
      | nil => exact hfront.last rfl
      | cons d front =>
          have hd : d = '/' := Option.some.inj hnext
          exact hfront.noClose ⟨[], front, by rw [hd]; rfl⟩

theorem IsMarkFree.append {front back : List Char} (hfront : IsMarkFree front)
    (hback : IsMarkFree back) : IsMarkFree (front ++ back) where
  noClose := hfront.noClose_append hback.noClose
  last := by
    by_cases hnil : back = []
    · rw [hnil, List.append_nil]
      exact hfront.last
    · rw [getLast?_append_right hnil]
      exact hback.last

theorem isMarkFree_blanks {blanks : List Char} (h : ∀ c ∈ blanks, isBlank c = true) :
    IsMarkFree blanks :=
  isMarkFree_of_not_mem fun hmem => absurd (h _ hmem) (by decide)

/-- A member with its semicolon is free of end marks if its type holds none. -/
theorem isMarkFree_member {written : WrittenMember} (h : written.IsWritten)
    (htype : NoClose written.type) : IsMarkFree (written.text ++ [';']) := by
  have hname : IsMarkFree written.name :=
    isMarkFree_of_not_mem fun hmem => absurd (h.name _ hmem) (by decide)
  have hmark : IsMarkFree (optionalMark written.optional ++ [':']) :=
    isMarkFree_of_not_mem (by cases written.optional <;> decide)
  have htail : IsMarkFree (written.type ++ [';']) :=
    ⟨htype.append_cons (noClose_of_not_mem List.not_mem_nil) (by decide), by simp⟩
  have htext : written.text ++ [';'] = written.name ++ ((optionalMark written.optional ++ [':'])
      ++ (written.gap ++ (written.type ++ [';']))) := by
    simp [WrittenMember.text]
  rw [htext]
  exact hname.append (hmark.append ((isMarkFree_blanks h.gap).append htail))

/-! ## Comments -/

/-- A comment with a text is passed over, as a doc comment or as another one. -/
theorem bareFields_comment {text : List Char} (hne : text ≠ []) (h : NoClose text)
    (rest : List Char) :
    bareFields ('/' :: '*' :: (text ++ '*' :: '/' :: rest)) = bareFields rest := by
  unfold bareFields
  by_cases hstar : text.head? = some '*'
  · obtain ⟨inside, rfl⟩ := List.head?_eq_some_iff.mp hstar
    rw [List.cons_append, items_doc h.tail]
    exact map_undescribed_fieldsOfItems _ none (items rest)
  · rw [items_block hne hstar h]
    rfl

/-- A comment without a text takes everything up to the next end mark for its text. -/
theorem bareFields_open {rest inside after : List Char} (h : NoClose inside)
    (hrest : '/' :: rest = inside ++ '*' :: '/' :: after) :
    bareFields ('/' :: '*' :: '*' :: '/' :: rest) = bareFields after := by
  rw [bareFields, hrest, items_doc h]
  exact map_undescribed_fieldsOfItems _ none (items after)

/-- A comment without a text is passed over if no end mark follows. -/
theorem bareFields_closed {rest : List Char} (h : NoClose ('/' :: rest)) :
    bareFields ('/' :: '*' :: '*' :: '/' :: rest) = bareFields rest := by
  have hnone : closeComment? ('/' :: rest) = none := by
    refine Option.eq_none_iff_forall_not_mem.mpr ?_
    rintro ⟨inside, after⟩ hclose
    obtain ⟨-, htext⟩ := eq_append_of_closeComment? hclose
    exact h ⟨inside, after, by rw [htext]; simp⟩
  have hitem : itemAt? (['/', '*', '*', '/'] ++ rest) = some (.comment, rest) := by
    simp only [List.cons_append, List.nil_append, itemAt?]
    rw [hnone]
    rfl
  have hitems : items ('/' :: '*' :: '*' :: '/' :: rest) = .comment :: items rest :=
    items_of_itemAt? (by simp) hitem
  rw [bareFields, hitems]
  rfl

/-! ## Parts of a body -/

/-- A part of a body: a member, which ends with a semicolon, or a block comment with its text. -/
inductive Part where
  | member (written : WrittenMember)
  | comment (text : List Char)

namespace Part

def text : Part → List Char
  | member written => written.text ++ [';']
  | comment text   => '/' :: '*' :: (text ++ ['*', '/'])

/-- What is left of a part when comments are taken out. -/
def bareText : Part → List Char
  | member written => written.text ++ [';']
  | comment _      => []

/-- A comment ends where its text does, and a type holds no end mark of a comment. -/
def IsWritten : Part → Prop
  | member written => written.IsWritten ∧ NoClose written.type
  | comment text   => NoClose text ∧ '\x7d' ∉ text

end Part

/-- The members among some parts. -/
def writtenMembers : List Part → List WrittenMember
  | []                       => []
  | .member written :: parts => written :: writtenMembers parts
  | .comment _ :: parts      => writtenMembers parts

/-- The texts of the comments among some parts. -/
def commentTexts : List Part → List (List Char)
  | []                    => []
  | .member _ :: parts    => commentTexts parts
  | .comment text :: parts => text :: commentTexts parts

/-- The members among some parts that are not lost. A comment without a text that another comment
    follows hides what stands before the end of that one; `hidden` says whether such a comment stands
    before the parts. -/
def visibleMembers : Bool → List Part → List WrittenMember
  | _,     []                       => []
  | false, .member written :: parts => written :: visibleMembers false parts
  | true,  .member _ :: parts       => visibleMembers true parts
  | false, .comment text :: parts   =>
    visibleMembers (decide (text = [] ∧ commentTexts parts ≠ [])) parts
  | true,  .comment _ :: parts      => visibleMembers false parts

theorem visibleMembers_sublist (hidden : Bool) (parts : List Part) :
    (visibleMembers hidden parts).Sublist (writtenMembers parts) := by
  induction parts generalizing hidden with
  | nil => cases hidden <;> exact List.Sublist.refl []
  | cons part parts ih =>
      cases part with
      | member written =>
          cases hidden with
          | false => exact (ih false).cons_cons written
          | true  => exact (ih true).cons written
      | comment text =>
          cases hidden with
          | false => exact ih _
          | true  => exact ih false

/-- No member is lost if only the last comment may be without a text. -/
theorem visibleMembers_eq_writtenMembers {parts : List Part}
    (h : ∀ text ∈ (commentTexts parts).dropLast, text ≠ []) :
    visibleMembers false parts = writtenMembers parts := by
  induction parts with
  | nil => rfl
  | cons part parts ih =>
      cases part with
      | member written => exact congrArg (written :: ·) (ih h)
      | comment text =>
          have hclosed : ¬ (text = [] ∧ commentTexts parts ≠ []) := by
            rintro ⟨htext, hmore⟩
            refine h text ?_ htext
            rw [commentTexts, List.dropLast_cons_of_ne_nil hmore]
            exact List.mem_cons_self
          have hrest : ∀ text ∈ (commentTexts parts).dropLast, text ≠ [] := by
            intro other hother
            refine h other ?_
            rw [commentTexts, List.dropLast_cons_of_ne_nil fun hnil => by simp [hnil] at hother]
            exact List.mem_cons_of_mem text hother
          rw [visibleMembers, decide_eq_false hclosed]
          exact ih hrest

/-! ## Bodies -/

/-- The text of a body: its parts, each with the white space before it. -/
def partsText (body : List (List Char × Part)) : List Char :=
  body.flatMap fun part => part.1 ++ part.2.text

/-- The text of a body from which the comments are taken out. -/
def bareText (body : List (List Char × Part)) : List Char :=
  body.flatMap fun part => part.1 ++ part.2.bareText

/-- The parts of a body are written between white space, and so is the end of the body. -/
structure IsCommented (body : List (List Char × Part)) (stop : List Char) : Prop where
  part : ∀ part ∈ body, part.2.IsWritten
  blanks : ∀ part ∈ body, ∀ c ∈ part.1, isBlank c = true
  stop : ∀ c ∈ stop, isBlank c = true

/-- No comment that starts with a slash comes right after one without a text, where it would look like
    the end of the first one. -/
def IsUnambiguous (texts : List (List Char)) : Prop :=
  texts.IsChain fun first next => first = [] → next.head? ≠ some '/'

theorem isUnambiguous_of_dropLast {texts : List (List Char)}
    (h : ∀ text ∈ texts.dropLast, text ≠ []) : IsUnambiguous texts := by
  induction texts with
  | nil => exact .nil
  | cons text texts ih =>
      cases texts with
      | nil => exact .singleton text
      | cons next texts =>
          refine List.isChain_cons_cons.mpr ⟨fun hempty => ?_, ih fun other hother => ?_⟩
          · exact absurd hempty (h text List.mem_cons_self)
          · exact h other (List.mem_cons_of_mem text hother)

section

variable {part : List Char × Part} {body : List (List Char × Part)} {stop : List Char}

theorem IsCommented.tail (h : IsCommented (part :: body) stop) : IsCommented body stop where
  part := fun other hother => h.part other (List.mem_cons_of_mem part hother)
  blanks := fun other hother => h.blanks other (List.mem_cons_of_mem part hother)
  stop := h.stop

theorem partsText_cons (part : List Char × Part) (body : List (List Char × Part))
    (rest : List Char) :
    partsText (part :: body) ++ rest = part.1 ++ (part.2.text ++ (partsText body ++ rest)) := by
  rw [partsText, List.flatMap_cons, List.append_assoc, List.append_assoc]
  rfl

/-- Without comments a body has no end mark. -/
theorem isMarkFree_partsText (h : IsCommented body stop) (hnone : commentTexts (body.map Prod.snd) = []) :
    IsMarkFree (partsText body ++ stop) := by
  induction body with
  | nil => exact isMarkFree_blanks h.stop
  | cons part body ih =>
      obtain ⟨blanks, part⟩ := part
      cases part with
      | comment text => exact nomatch hnone
      | member written =>
          have hpart := h.part (blanks, .member written) List.mem_cons_self
          have hblanks := isMarkFree_blanks (h.blanks (blanks, .member written) List.mem_cons_self)
          rw [partsText_cons]
          exact hblanks.append ((isMarkFree_member hpart.1 hpart.2).append (ih h.tail hnone))

/-- What is read of a body: before it the members that are not lost, and behind a comment without a
    text those behind the end of the next comment, if there is one. -/
structure IsRead (body : List (List Char × Part)) (stop : List Char) : Prop where
  visible : bareFields (partsText body ++ stop)
    = (visibleMembers false (body.map Prod.snd)).map (·.field none)
  hidden : ∀ before next, IsMarkFree before → (commentTexts (body.map Prod.snd)).head? = some next →
    next.head? ≠ some '/' →
    ∃ inside after, NoClose inside ∧
      before ++ (partsText body ++ stop) = inside ++ '*' :: '/' :: after ∧
      bareFields after = (visibleMembers true (body.map Prod.snd)).map (·.field none)

theorem isRead_nil (h : ∀ c ∈ stop, isBlank c = true) : IsRead [] stop where
  visible := by
    have hstop := bareFields_blanks h []
    rw [List.append_nil] at hstop
    exact hstop
  hidden := fun _ _ _ hnext => nomatch hnext

/-- A member is read, or hidden with what is before it. -/
theorem IsRead.member {blanks : List Char} {written : WrittenMember}
    (hblanks : ∀ c ∈ blanks, isBlank c = true) (hwritten : (Part.member written).IsWritten)
    (h : IsRead body stop) : IsRead ((blanks, .member written) :: body) stop where
  visible := by
    have hread := bareFields_member hwritten.1 (partsText body ++ stop)
    rw [h.visible] at hread
    rw [partsText_cons, bareFields_blanks hblanks, Part.text, List.append_assoc]
    exact hread
  hidden := by
    intro before next hbefore hnext hslash
    have hfree := hbefore.append
      ((isMarkFree_blanks hblanks).append (isMarkFree_member hwritten.1 hwritten.2))
    obtain ⟨inside, after, hinside, htext, hafter⟩ := h.hidden _ next hfree hnext hslash
    refine ⟨inside, after, hinside, ?_, hafter⟩
    rw [← htext, partsText_cons]
    simp [Part.text]

theorem text_comment_append (text rest : List Char) :
    Part.text (.comment text) ++ rest = '/' :: '*' :: (text ++ '*' :: '/' :: rest) := by
  simp [Part.text]

/-- A comment with a text is passed over. -/
theorem IsRead.visible_comment {text : List Char} (hne : text ≠ []) (hclose : NoClose text)
    (h : IsRead body stop) :
    bareFields (Part.text (.comment text) ++ (partsText body ++ stop))
      = (visibleMembers false (.comment text :: body.map Prod.snd)).map (·.field none) := by
  have hshown : ¬ (text = [] ∧ commentTexts (body.map Prod.snd) ≠ []) := fun hboth => hne hboth.1
  rw [text_comment_append, bareFields_comment hne hclose, h.visible, visibleMembers,
    decide_eq_false hshown]

/-- A comment without a text goes on to the end of the next comment, if there is one. -/
theorem IsRead.visible_emptyComment (hbody : IsCommented body stop)
    (hclear : IsUnambiguous ([] :: commentTexts (body.map Prod.snd))) (h : IsRead body stop) :
    bareFields (Part.text (.comment []) ++ (partsText body ++ stop))
      = (visibleMembers false (.comment [] :: body.map Prod.snd)).map (·.field none) := by
  rw [text_comment_append, List.nil_append, visibleMembers]
  cases hcomments : commentTexts (body.map Prod.snd) with
  | nil =>
      have hfree : NoClose ('/' :: (partsText body ++ stop)) :=
        (isMarkFree_partsText hbody hcomments).noClose.cons fun hstar => absurd hstar.1 (by decide)
      rw [bareFields_closed hfree, h.visible]
      rfl
  | cons next texts =>
      have hslash : next.head? ≠ some '/' := by
        rw [hcomments] at hclear
        exact (List.isChain_cons_cons.mp hclear).1 rfl
      obtain ⟨inside, after, hinside, htaken, hafter⟩ := h.hidden ['/'] next
        (isMarkFree_of_not_mem (by decide)) (by rw [hcomments]; rfl) hslash
      exact (@bareFields_open (partsText body ++ stop) inside after hinside htaken).trans hafter

/-- A comment ends what is hidden, unless its start looks like an end mark. -/
theorem IsRead.hidden_comment {blanks text before : List Char}
    (hblanks : ∀ c ∈ blanks, isBlank c = true) (hclose : NoClose text)
    (hslash : text.head? ≠ some '/') (hbefore : IsMarkFree before) (h : IsRead body stop) :
    ∃ inside after, NoClose inside ∧
      before ++ (partsText ((blanks, .comment text) :: body) ++ stop)
        = inside ++ '*' :: '/' :: after ∧
      bareFields after
        = (visibleMembers true (.comment text :: body.map Prod.snd)).map (·.field none) := by
  have hopening : NoClose ('/' :: '*' :: text) :=
    (hclose.cons fun hstar => hslash hstar.2).cons fun hstar => absurd hstar.1 (by decide)
  refine ⟨before ++ (blanks ++ '/' :: '*' :: text), partsText body ++ stop,
    hbefore.noClose_append ((isMarkFree_blanks hblanks).noClose_append hopening), ?_, h.visible⟩
  rw [partsText_cons, text_comment_append]
  simp

/-- **A body is read part by part.** -/
theorem isRead_of_isCommented (h : IsCommented body stop)
    (hclear : IsUnambiguous (commentTexts (body.map Prod.snd))) : IsRead body stop := by
  -- induction on the parts, before them and behind a comment without a text at once
  induction body with
  | nil => exact isRead_nil h.stop
  | cons part body ih =>
      obtain ⟨blanks, part⟩ := part
      have hpart := h.part (blanks, part) List.mem_cons_self
      have hblanks := h.blanks (blanks, part) List.mem_cons_self
      cases part with
      | member written => exact (ih h.tail hclear).member hblanks hpart
      | comment text =>
          have hrest := ih h.tail hclear.tail
          refine ⟨?_, fun before next hbefore hnext hslash => ?_⟩
          · rw [partsText_cons, bareFields_blanks hblanks]
            by_cases hempty : text = []
            · subst hempty
              exact hrest.visible_emptyComment h.tail hclear
            · exact hrest.visible_comment hempty hpart.1
          · obtain rfl : text = next := Option.some.inj hnext
            exact hrest.hidden_comment hblanks hpart.1 hslash hbefore

/-- Without its comments a body is read as its members. -/
theorem fieldsOfItems_bareText (h : IsCommented body stop) :
    fieldsOfItems none (items (bareText body ++ stop))
      = (writtenMembers (body.map Prod.snd)).map (·.field none) := by
  induction body with
  | nil =>
      have hstop := items_blanks h.stop []
      rw [List.append_nil] at hstop
      rw [bareText, List.flatMap_nil, List.nil_append, hstop]
      rfl
  | cons part body ih =>
      obtain ⟨blanks, part⟩ := part
      have hpart := h.part (blanks, part) List.mem_cons_self
      have hblanks := h.blanks (blanks, part) List.mem_cons_self
      have hrest := ih h.tail
      have htext : bareText ((blanks, part) :: body) ++ stop
          = blanks ++ (part.bareText ++ (bareText body ++ stop)) := by
        simp [bareText]
      rw [htext, items_blanks hblanks]
      cases part with
      | comment text => exact hrest
      | member written =>
          rw [Part.bareText, List.append_assoc, List.singleton_append,
            fieldsOfItems_endedMember hpart.1, hrest]
          rfl

/-! ## Declarations -/

theorem Part.IsWritten.brace_not_mem {part : Part} (h : part.IsWritten) : '\x7d' ∉ part.text := by
  cases part with
  | member written =>
      have hmember : '\x7d' ∉ written.text := h.1.brace_not_mem
      simp [Part.text, hmember]
  | comment text => simp [Part.text, h.2]

theorem IsCommented.brace_not_mem (h : IsCommented body stop) : '\x7d' ∉ partsText body ++ stop := by
  intro hmem
  rcases List.mem_append.mp hmem with hmem | hmem
  · obtain ⟨part, hpart, hin⟩ := List.mem_flatMap.mp hmem
    rcases List.mem_append.mp hin with hin | hin
    · exact absurd (h.blanks part hpart _ hin) (by decide)
    · exact (h.part part hpart).brace_not_mem hin
  · exact absurd (h.stop _ hmem) (by decide)

theorem Part.bareText_subset (part : Part) : part.bareText ⊆ part.text := by
  cases part with
  | member written => exact List.Subset.refl _
  | comment text   => exact List.nil_subset _

/-- Taking the comments out adds nothing. -/
theorem bareText_subset (body : List (List Char × Part)) : bareText body ⊆ partsText body := by
  intro c hc
  obtain ⟨part, hpart, hin⟩ := List.mem_flatMap.mp hc
  refine List.mem_flatMap.mpr ⟨part, hpart, ?_⟩
  exact (List.mem_append.mp hin).elim (List.mem_append_left _) fun hin =>
    List.mem_append_right _ (part.2.bareText_subset hin)

/-- A body that is not empty without its comments is not empty with them. -/
theorem partsText_ne_nil (h : bareText body ++ stop ≠ []) : partsText body ++ stop ≠ [] := by
  intro hnil
  obtain ⟨hparts, hstop⟩ := List.append_eq_nil_iff.mp hnil
  have hbare : bareText body = [] := List.eq_nil_of_subset_nil (hparts ▸ bareText_subset body)
  exact h (by rw [hbare, hstop]; rfl)

end

/-- A source text with a declaration of the given body, and what stands before and after it. -/
def declarationSource (front name : List Char) (asInterface : Bool) (inside back : List Char) :
    String :=
  String.ofList (front ++ (headerText name asInterface ++ (inside ++ '\x7d' :: back)))

section

variable {name front stop : List Char} {body : List (List Char × Part)} (asInterface : Bool)
  (hname : ∀ c ∈ name, isWord c = true) (hne : name ≠ []) (hfront : '\x7b' ∉ front)
  (hend : EndsOutsideWord front) (h : IsCommented body stop) (hbody : bareText body ++ stop ≠ [])
  (back : List Char)

include hname hne hfront hend h hbody

/-- Without the comments every member is imported. -/
theorem schema_bareText :
    Import.schema (declarationSource front name asInterface (bareText body ++ stop) back)
      = .ok
          { name := String.ofList name
            fields := (writtenMembers (body.map Prod.snd)).map (·.field none) } := by
  have hbrace : '\x7d' ∉ bareText body ++ stop := by
    intro hmem
    refine h.brace_not_mem ?_
    rcases List.mem_append.mp hmem with hin | hin
    · exact List.mem_append_left stop (bareText_subset body hin)
    · exact List.mem_append_right (partsText body) hin
  rw [← fieldsOfItems_bareText h]
  exact schema_of_body asInterface hname hne hfront hend hbody hbrace back

/-- With the comments the members that are not lost are imported. -/
theorem schema_partsText (hclear : IsUnambiguous (commentTexts (body.map Prod.snd))) :
    (Import.schema (declarationSource front name asInterface (partsText body ++ stop) back)).map
        Schema.undescribed
      = .ok
          { name := String.ofList name
            fields := (visibleMembers false (body.map Prod.snd)).map (·.field none) } := by
  have hread := schema_of_body asInterface hname hne hfront hend (partsText_ne_nil hbody)
    h.brace_not_mem back
  rw [← (isRead_of_isCommented h hclear).visible]
  exact congrArg (Except.map Schema.undescribed) hread

end

/-- **Block comments between members are passed over, unless one without a text hides a member.** What is
    imported shows, descriptions apart, exactly the members that are not lost. So it is the same as
    without the comments exactly if no member is lost, which holds if no comment but the last is
    without a text. -/
theorem schema_blockComments {name front stop : List Char} {body : List (List Char × Part)}
    (asInterface : Bool) (hname : ∀ c ∈ name, isWord c = true) (hne : name ≠ [])
    (hfront : '\x7b' ∉ front) (hend : EndsOutsideWord front) (h : IsCommented body stop)
    (hbody : bareText body ++ stop ≠ []) (back : List Char) :
    let commented := Import.schema (declarationSource front name asInterface (partsText body ++ stop) back)
    let bare := Import.schema (declarationSource front name asInterface (bareText body ++ stop) back)
    bare = .ok
      { name := String.ofList name, description := none
        fields := (writtenMembers (body.map Prod.snd)).map (·.field none) } ∧
    (IsUnambiguous (commentTexts (body.map Prod.snd)) →
      commented.map Schema.undescribed = .ok
        { name := String.ofList name, description := none
          fields := (visibleMembers false (body.map Prod.snd)).map (·.field none) } ∧
      (commented.map Schema.undescribed = bare
        ↔ visibleMembers false (body.map Prod.snd) = writtenMembers (body.map Prod.snd))) ∧
    ((∀ text ∈ (commentTexts (body.map Prod.snd)).dropLast, text ≠ []) →
      commented.map Schema.undescribed = bare) := by
  intro commented bare
  have hbare : bare = _ := schema_bareText asInterface hname hne hfront hend h hbody back
  have hread : IsUnambiguous (commentTexts (body.map Prod.snd)) →
      commented.map Schema.undescribed = _ :=
    fun hclear => schema_partsText asInterface hname hne hfront hend h hbody back hclear
  refine ⟨hbare, fun hclear => ⟨hread hclear, ?_⟩, fun htexts => ?_⟩
  · rw [hread hclear, hbare]
    constructor
    · -- a list that is left of the members and as long as theirs is theirs
      intro hschema
      have hlength := congrArg List.length (congrArg Schema.fields (Except.ok.inj hschema))
      rw [List.length_map, List.length_map] at hlength
      exact (visibleMembers_sublist false _).eq_of_length hlength
    · intro hall
      rw [hall]
  · rw [hread (isUnambiguous_of_dropLast htexts), hbare, visibleMembers_eq_writtenMembers htexts]

/-- A comment that starts with a slash, one without a text before a member, a doc comment after it, and
    one without a text at the end. -/
def taskBody : List (List Char × Part) :=
  [("\n  ".toList, .comment "/ x: y; ".toList),
   ([' '], .member { name := ['a'], gap := [' '], type := "string".toList }),
   ([], .comment []),
   (['\n'], .member { name := ['b'], optional := true, gap := [' '], type := "number".toList }),
   ([' '], .comment "* c: Date; ".toList),
   ([], .member { name := ['d'], gap := [' '], type := "Date[] | null".toList }),
   ([' '], .comment [])]

/-- The second member is lost; it is not without the comment before it. -/
theorem schema_blockComments_task :
    IsCommented taskBody ['\n'] ∧ IsCommented (taskBody.eraseIdx 2) ['\n'] ∧
    (Import.schema ("export interface Task \x7b\n  /*/ x: y; */ a: string;/**/\nb?: number; "
        ++ "/** c: Date; */d: Date[] | null; /**/\n\x7d")).map Schema.undescribed
      = .ok
          { name := "Task"
            fields :=
              [{ name := "a", rules := .empty .string },
               { name := "d", nullable := true, rules := .arrayOf .date }] } ∧
    (Import.schema ("export interface Task \x7b\n  /*/ x: y; */ a: string;\nb?: number; "
        ++ "/** c: Date; */d: Date[] | null; /**/\n\x7d")).map Schema.undescribed
      = .ok
          { name := "Task"
            fields :=
              [{ name := "a", rules := .empty .string },
               { name := "b", required := false, rules := .empty .number },
               { name := "d", nullable := true, rules := .arrayOf .date }] } := by
  have hclose : ∀ text : List Char, ¬ ['*', '/'] <:+: text → NoClose text := fun _ h => h
  have hblanks : ∀ part ∈ taskBody, part.1.all isBlank = true := by decide
  have hparts : ∀ part ∈ taskBody, part.2.IsWritten := by
    intro part hpart
    simp only [taskBody, List.mem_cons, List.not_mem_nil, or_false] at hpart
    rcases hpart with rfl | rfl | rfl | rfl | rfl | rfl | rfl
    case inr.inl | inr.inr.inr.inl | inr.inr.inr.inr.inr.inl =>
      refine ⟨?_, hclose _ (by decide)⟩
      exact
        { name_ne_nil := by decide
          name := List.all_eq_true.mp (by decide)
          gap := List.all_eq_true.mp (by decide)
          type_ne_nil := by decide
          type_trimmed := isTrimmed_of_trim (by decide)
          type := List.all_iff_forall_prop.mp (by decide)
          type_uncut := by decide }
    all_goals exact ⟨hclose _ (by decide), by decide⟩
  have hcommented : IsCommented taskBody ['\n'] :=
    { part := hparts
      blanks := fun part hpart => List.all_eq_true.mp (hblanks part hpart)
      stop := List.forall_mem_singleton.mpr isBlank_newline }
  have herased : IsCommented (taskBody.eraseIdx 2) ['\n'] :=
    { part := fun part hmem => hcommented.part part (List.mem_of_mem_eraseIdx hmem)
      blanks := fun part hmem => hcommented.blanks part (List.mem_of_mem_eraseIdx hmem)
      stop := hcommented.stop }
  have hclear : IsUnambiguous (commentTexts (taskBody.map Prod.snd)) := by
    unfold IsUnambiguous
    decide
  have hend : EndsOutsideWord "export ".toList := by
    intro c hc
    obtain rfl := Option.some.inj hc
    decide
  have hname : ∀ c ∈ "Task".toList, isWord c = true := List.all_eq_true.mp (by decide)
  obtain ⟨-, hread, -⟩ := @schema_blockComments "Task".toList "export ".toList ['\n'] taskBody true
    hname (by decide) (by decide) hend hcommented (by decide) []
  obtain ⟨hbare, -, hsame⟩ := @schema_blockComments "Task".toList "export ".toList ['\n']
    (taskBody.eraseIdx 2) true hname (by decide) (by decide) hend herased (by decide) []
  refine ⟨hcommented, herased, ?_, ?_⟩
  · exact (congrArg (fun source => (Import.schema source).map Schema.undescribed)
      (by decide +kernel)).trans ((hread hclear).1.trans rfl)
  · exact (congrArg (fun source => (Import.schema source).map Schema.undescribed)
      (by decide +kernel)).trans ((hsame (by decide)).trans (hbare.trans rfl))

end SchemaForge.TypeScript.Import
