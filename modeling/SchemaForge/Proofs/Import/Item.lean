import SchemaForge.Proofs.Text.Run
import SchemaForge.TypeScript.Import.Item

/-!
# `Proofs.Import.Item` — how the items of a body are read

A body is read from its front: an item is taken off, or one character is passed over. The lemmas say
what each front does: a doc comment up to its first end mark, a member up to the end of its type, and
a character that starts neither. A body that is a sequence of such pieces is read piece by piece.

## Contents
- **Positions.** `items_of_itemAt?` and `items_of_none`, one step of the reader.
- **Comments.** `closeComment?_append`, `items_doc`, `items_block` and `items_line`.
- **Members.** `typeText?_append` and `items_member`.
-/

namespace SchemaForge.TypeScript.Import

open Text

/-! ## One step of the reader -/

/-- Skipping characters is reading on after them. -/
theorem itemsAfter_eq_items_drop (n : Nat) (text : List Char) :
    itemsAfter n text = items (text.drop n) := by
  induction text generalizing n with
  | nil => cases n <;> rfl
  | cons c rest ih =>
      cases n with
      | zero   => rfl
      | succ n => exact ih n

/-- An item at the front is taken off. -/
theorem items_of_itemAt? {front after : List Char} {item : Item} (hne : front ≠ [])
    (h : itemAt? (front ++ after) = some (item, after)) :
    items (front ++ after) = item :: items after := by
  cases front with
  | nil => exact absurd rfl hne
  | cons c front =>
      rw [List.cons_append] at h ⊢
      have hdrop : (front ++ after).drop ((front ++ after).length - after.length) = after := by
        rw [List.length_append, Nat.add_sub_cancel]
        exact List.drop_left
      rw [items, itemsAfter, h]
      show item :: itemsAfter _ (front ++ after) = _
      rw [itemsAfter_eq_items_drop, hdrop]

/-- A character at which no item stands is passed over. -/
theorem items_of_none {c : Char} {rest : List Char} (h : itemAt? (c :: rest) = none) :
    items (c :: rest) = items rest := by
  rw [items, itemsAfter, h]
  rfl

theorem itemAt?_of_ne_slash {c : Char} {rest : List Char} (h : c ≠ '/') :
    itemAt? (c :: rest) = memberAt? (c :: rest) := by
  unfold itemAt?
  split
  · rename_i he; exact absurd (List.cons.inj he).1 h
  · rename_i he; exact absurd (List.cons.inj he).1 h
  · rename_i he; exact absurd (List.cons.inj he).1 h
  · rfl

theorem memberAt?_of_stopsAt {text : List Char} (h : StopsAt isWord text) :
    memberAt? text = none := by
  unfold memberAt?
  rw [takeWhile_eq_nil_of_stopsAt h]

/-- A character that can start neither a comment nor a name is passed over. -/
theorem items_skip {c : Char} {rest : List Char} (hslash : c ≠ '/') (hword : isWord c = false) :
    items (c :: rest) = items rest :=
  items_of_none (by rw [itemAt?_of_ne_slash hslash, memberAt?_of_stopsAt (stopsAt_cons hword)])

theorem items_blank {c : Char} (h : isBlank c = true) (rest : List Char) :
    items (c :: rest) = items rest := by
  refine items_skip (fun he => ?_) (isWord_eq_false_of_isBlank h)
  rw [he] at h
  exact absurd h (by decide)

theorem items_blanks {blanks : List Char} (h : ∀ c ∈ blanks, isBlank c = true) (rest : List Char) :
    items (blanks ++ rest) = items rest := by
  induction blanks with
  | nil => rfl
  | cons c blanks ih =>
      rw [List.cons_append, items_blank (h c (by simp)), ih fun d hd => h d (by simp [hd])]

/-! ## Comments -/

/-- The text has no end mark of a block comment. -/
def NoClose (text : List Char) : Prop := ¬ ['*', '/'] <:+: text

theorem NoClose.tail {c : Char} {text : List Char} (h : NoClose (c :: text)) : NoClose text :=
  fun hin => h (hin.trans (List.suffix_cons c text).isInfix)

theorem noClose_of_not_mem {text : List Char} (h : '*' ∉ text) : NoClose text :=
  fun hin => h (hin.subset (by simp))

theorem NoClose.cons {c : Char} {text : List Char} (h : NoClose text)
    (hstart : ¬ (c = '*' ∧ text.head? = some '/')) : NoClose (c :: text) := by
  intro hin
  rcases List.infix_cons_iff.mp hin with ⟨after, he⟩ | hin
  · refine hstart ⟨(List.cons.inj he).1.symm, ?_⟩
    rw [← (List.cons.inj he).2]
    rfl
  · exact h hin

/-- No end mark goes across a character that is not part of one. -/
theorem NoClose.append_cons {front back : List Char} {c : Char} (hfront : NoClose front)
    (hback : NoClose back) (hc : c ≠ '*' ∧ c ≠ '/') : NoClose (front ++ c :: back) := by
  induction front with
  | nil => exact hback.cons fun hstart => hc.1 hstart.1
  | cons d front ih =>
      refine (ih hfront.tail).cons ?_
      rintro ⟨rfl, hnext⟩
      cases front with
      | nil => exact hc.2 (Option.some.inj hnext)
      | cons e front =>
          have he : e = '/' := Option.some.inj hnext
          exact hfront ⟨[], front, by rw [he]; rfl⟩

/-- A comment ends at its first end mark. -/
theorem closeComment?_append {text : List Char} (h : NoClose text) (rest : List Char) :
    closeComment? (text ++ '*' :: '/' :: rest) = some (text, rest) := by
  induction text with
  | nil => rfl
  | cons c text ih =>
      have hnext : ∀ after, c = '*' → text ++ '*' :: '/' :: rest ≠ '/' :: after := by
        rintro after rfl he
        cases text with
        | nil => exact absurd (List.cons.inj he).1 (by decide)
        | cons d text =>
            have hd : d = '/' := (List.cons.inj he).1
            exact h ⟨[], text, by rw [hd]; rfl⟩
      rw [List.cons_append, closeComment?.eq_3 c _ fun after hc he => hnext after hc he, ih h.tail,
        Option.map_some]

/-- A doc comment is read up to its first end mark. -/
theorem items_doc {text : List Char} (h : NoClose text) (rest : List Char) :
    items ('/' :: '*' :: '*' :: (text ++ '*' :: '/' :: rest)) = .doc text :: items rest := by
  have hitem : itemAt? (('/' :: '*' :: '*' :: (text ++ ['*', '/'])) ++ rest)
      = some (.doc text, rest) := by
    simp only [List.cons_append, List.append_assoc, List.nil_append, itemAt?]
    rw [closeComment?_append h]
  have := items_of_itemAt? (by simp) hitem
  simpa using this

/-- A block comment that no doc comment starts is read up to its first end mark. -/
theorem items_block {text : List Char} (hne : text ≠ []) (hstar : text.head? ≠ some '*')
    (h : NoClose text) (rest : List Char) :
    items ('/' :: '*' :: (text ++ '*' :: '/' :: rest)) = .comment :: items rest := by
  have hitem : itemAt? (('/' :: '*' :: (text ++ ['*', '/'])) ++ rest) = some (.comment, rest) := by
    have htext : ('/' :: '*' :: (text ++ ['*', '/'])) ++ rest
        = '/' :: '*' :: (text ++ '*' :: '/' :: rest) := by simp
    rw [htext]
    unfold itemAt?
    split
    · next after he =>   -- a second star
        cases text with
        | nil => exact absurd rfl hne
        | cons c text => exact absurd (congrArg some (List.cons.inj (by simpa using he)).1) hstar
    · next after _ he =>
        rw [← (List.cons.inj (List.cons.inj he).2).2, closeComment?_append h]
        rfl
    · next he => exact absurd (List.cons.inj (List.cons.inj he).2).1 (by decide)
    · next hblock _ => exact absurd rfl (hblock _)
  have := items_of_itemAt? (by simp) hitem
  simpa using this

/-- A line comment takes everything up to a line feed. -/
theorem items_line {text after : List Char} (hline : '\n' ∉ text)
    (hafter : StopsAt (fun c => decide (c ≠ '\n')) after) :
    items ('/' :: '/' :: (text ++ after)) = .comment :: items after := by
  have hrun : ∀ c ∈ text, decide (c ≠ '\n') = true :=
    fun c hc => decide_eq_true fun he => hline (he ▸ hc)
  have hitem : itemAt? (('/' :: '/' :: text) ++ after) = some (.comment, after) := by
    show some (Item.comment, (text ++ after).dropWhile fun c => decide (c ≠ '\n')) = _
    rw [dropWhile_run hrun hafter]
  exact items_of_itemAt? (by simp) hitem

/-! ## Members -/

/-- A type is read from the first character that is no blank to where it stops. -/
theorem typeText?_append {blanks type after : List Char} (hblanks : ∀ c ∈ blanks, isBlank c = true)
    (htype : ∀ c ∈ type, isTypeChar c = true) (hne : type ≠ []) (hstart : StopsAt isBlank type)
    (hafter : StopsAt isTypeChar after) :
    typeText? (blanks ++ (type ++ after)) = some (type, after) := by
  have stop : StopsAt isBlank (type ++ after) := by
    intro c hc
    cases type with
    | nil => exact absurd rfl hne
    | cons d type => exact hstart c hc
  have hsplit : trimStart (blanks ++ (type ++ after)) = type ++ after := dropWhile_run hblanks stop
  unfold typeText?
  dsimp only
  rw [hsplit, takeWhile_run htype hafter, dropWhile_run htype hafter]
  cases type with
  | nil => exact absurd rfl hne
  | cons c type => rfl

/-- The mark after the name of a member that may be missing. -/
def optionalMark (optional : Bool) : List Char := if optional then ['?'] else []

theorem questionMark_append (optional : Bool) (rest : List Char) :
    questionMark (optionalMark optional ++ ':' :: rest) = (optional, ':' :: rest) := by
  cases optional <;> rfl

theorem isWord_question : isWord '?' = false := by decide

theorem isWord_colon : isWord ':' = false := by decide

/-- A member is read as its name, its mark and its type. -/
theorem memberAt?_append {name text type after : List Char} {optional : Bool}
    (hname : ∀ c ∈ name, isWord c = true) (hne : name ≠ [])
    (htype : typeText? text = some (type, after)) :
    memberAt? (name ++ (optionalMark optional ++ ':' :: text))
      = some (.member name optional type, after) := by
  have stop : StopsAt isWord (optionalMark optional ++ ':' :: text) := by
    cases optional with
    | true  => exact stopsAt_cons isWord_question
    | false => exact stopsAt_cons isWord_colon
  unfold memberAt?
  rw [takeWhile_run hname stop, dropWhile_run hname stop, questionMark_append]
  cases name with
  | nil => exact absurd rfl hne
  | cons c name =>
      show (typeText? text).map _ = _
      rw [htype]
      rfl

theorem isWord_slash : isWord '/' = false := by decide

/-- A member is read up to where its type stops. -/
theorem items_member (optional : Bool) {name blanks type after : List Char}
    (hname : ∀ c ∈ name, isWord c = true) (hne : name ≠ [])
    (hblanks : ∀ c ∈ blanks, isBlank c = true) (htype : ∀ c ∈ type, isTypeChar c = true)
    (htype_ne : type ≠ []) (hstart : StopsAt isBlank type) (hafter : StopsAt isTypeChar after) :
    items (name ++ (optionalMark optional ++ ':' :: (blanks ++ (type ++ after))))
      = .member name optional type :: items after := by
  have htext := typeText?_append hblanks htype htype_ne hstart hafter
  have hmember : memberAt? (name ++ (optionalMark optional ++ ':' :: (blanks ++ (type ++ after))))
      = some (.member name optional type, after) := memberAt?_append hname hne htext
  have hitem : itemAt? ((name ++ (optionalMark optional ++ ':' :: (blanks ++ type))) ++ after)
      = some (.member name optional type, after) := by
    simp only [List.append_assoc, List.cons_append]
    rw [← hmember]
    cases name with
    | nil => exact absurd rfl hne
    | cons c name =>
        -- a comment would start with a slash, a name does not
        refine itemAt?_of_ne_slash fun hc => ?_
        have := hname c (by simp)
        rw [hc, isWord_slash] at this
        exact absurd this (by simp)
  have := items_of_itemAt? (by simp [hne]) hitem
  simpa only [List.append_assoc, List.cons_append] using this

end SchemaForge.TypeScript.Import
