import SchemaForge.Proofs.Import.Recovery

/-!
# `Proofs.Import.Produced` — what an import can produce

Whatever a source text says, the schema read from it has only parts that a declaration can show:
names that are words, no defaults, descriptions of one trimmed line, and the rules of a keyword, of a
collection of a keyword or of a list of literals. Every part is traced back to the item that it is
read from, and every item to the characters of the body.

## Contents
- **Parts.** `IsProducedDoc`, `Rules.IsProduced`, `Field.IsProduced` and `Schema.IsProduced`.
- **Items.** `Item.IsFrom`, and `isFrom_of_mem_items`: what an item can show.
- **Descriptions.** `isProducedDoc_of_cleanDoc?`, what is left of a doc comment.
- **Rules.** `isProduced_rulesOfType`, what the text of a type can stand for.
- **Schemas.** `isProduced_of_schema`.
-/

namespace SchemaForge

open Text TypeScript.Import

/-! ## The parts of an imported schema -/

/-- A description read from a doc comment: one trimmed line that is not empty and ends neither its
    comment nor the declaration. -/
structure IsProducedDoc (text : String) : Prop where
  ne_empty : text ≠ ""
  line : '\n' ∉ text.toList
  trimmed : IsTrimmed text.toList
  noClose : NoClose text.toList
  brace : '\x7d' ∉ text.toList

/-- A value read from a literal: not empty, of characters of the source, none of which is a quote or
    ends a literal, a member or the declaration. -/
structure IsProducedValue (source : List Char) (value : String) : Prop where
  ne_empty : value ≠ ""
  source : value.toList ⊆ source
  plain : ∀ c ∈ value.toList, c ∉ ['\'', '"', '|', ';', ',', '\n', '\x7d']

/-- The rules that the text of a type in a source can stand for. -/
inductive Rules.IsProduced (source : List Char) : Rules → Prop where
  | keyword {kind : Kind} (h : kind.isPrimitive = true) : IsProduced source (.empty kind)
  | collection {kind : Kind} (h : kind.isPrimitive = true) : IsProduced source (.arrayOf kind)
  | literals {values : List String} (hne : values ≠ [])
      (h : ∀ value ∈ values, IsProducedValue source value) : IsProduced source (.oneOf values)

structure Field.IsProduced (source : List Char) (field : Field) : Prop where
  name : IsName field.name
  defaultValue : field.defaultValue = none
  description : ∀ text, field.description = some text → IsProducedDoc text
  rules : field.rules.IsProduced source

structure Schema.IsProduced (source : List Char) (schema : Schema) : Prop where
  name : IsName schema.name
  description : schema.description = none
  fields : ∀ field ∈ schema.fields, field.IsProduced source

end SchemaForge

namespace SchemaForge.TypeScript.Import

open Text

/-! ## Items -/

/-- What an item shows of the text that it is read from. -/
def Item.IsFrom (body : List Char) : Item → Prop
  | .doc text           => text ⊆ body ∧ NoClose text
  | .comment            => True
  | .member name _ type =>
    (name ≠ [] ∧ ∀ c ∈ name, isWord c = true) ∧ type ⊆ body ∧ ∀ c ∈ type, isTypeChar c = true

theorem Item.IsFrom.mono {text body : List Char} {item : Item} (h : item.IsFrom text)
    (hsub : text ⊆ body) : item.IsFrom body := by
  cases item with
  | doc inside => exact ⟨fun _ hc => hsub (h.1 hc), h.2⟩
  | comment => exact trivial
  | member name optional type => exact ⟨h.1, fun _ hc => hsub (h.2.1 hc), h.2.2⟩

/-- A comment is closed by the first end mark of its text. -/
theorem eq_append_of_closeComment? {text inside after : List Char}
    (h : closeComment? text = some (inside, after)) :
    NoClose inside ∧ text = inside ++ '*' :: '/' :: after := by
  fun_induction closeComment? text generalizing inside after with
  | case1 => exact nomatch h
  | case2 rest =>   -- the end mark stands here
      obtain ⟨rfl, rfl⟩ := Prod.mk.inj (Option.some.inj h)
      exact ⟨noClose_of_not_mem List.not_mem_nil, rfl⟩
  | case3 c rest hopen ih =>
      obtain ⟨⟨inside, after⟩, hrest, he⟩ := Option.map_eq_some_iff.mp h
      obtain ⟨rfl, rfl⟩ := Prod.mk.inj he
      obtain ⟨hclose, rfl⟩ := ih hrest
      refine ⟨hclose.cons ?_, rfl⟩
      rintro ⟨rfl, hnext⟩
      obtain ⟨inside, rfl⟩ := List.head?_eq_some_iff.mp hnext
      exact hopen _ rfl rfl

theorem isTypeChar_of_isBlank {c : Char} (h : isBlank c = true) (hc : c ≠ '\n') :
    isTypeChar c = true := by
  have hsemi : c ≠ ';' := by rintro rfl; exact absurd h (by decide)
  have hcomma : c ≠ ',' := by rintro rfl; exact absurd h (by decide)
  simp [isTypeChar, hsemi, hcomma, hc]

/-- The text of a type has characters of the body only, and none that would have ended it. -/
theorem subset_of_typeText? {text type after : List Char} (h : typeText? text = some (type, after)) :
    type ⊆ text ∧ ∀ c ∈ type, isTypeChar c = true := by
  unfold typeText? at h
  dsimp only at h
  split at h
  · -- nothing but blanks: the last one that is no line feed stands for the type
    split at h
    · exact nomatch h
    · next blank rest hblank =>
        obtain ⟨rfl, -⟩ := Prod.mk.inj (Option.some.inj h)
        have hmem : blank ∈ text.takeWhile isBlank := by
          have : blank ∈ (text.takeWhile isBlank).reverse.dropWhile (· == '\n') := by simp [hblank]
          exact List.mem_reverse.mp ((List.dropWhile_suffix _).subset this)
        have hline : blank ≠ '\n' := by
          have := @stopsAt_dropWhile (· == '\n') (text.takeWhile isBlank).reverse blank
            (by rw [hblank]; rfl)
          simpa using this
        exact ⟨List.cons_subset.mpr ⟨(List.takeWhile_prefix _).subset hmem, List.nil_subset _⟩,
          List.forall_mem_singleton.mpr
            (isTypeChar_of_isBlank (List.mem_takeWhile_imp hmem) hline)⟩
  · obtain ⟨rfl, -⟩ := Prod.mk.inj (Option.some.inj h)
    exact ⟨fun _ hc => (List.dropWhile_suffix _).subset ((List.takeWhile_prefix _).subset hc),
      fun _ hc => List.mem_takeWhile_imp hc⟩

theorem questionMark_suffix (text : List Char) : (questionMark text).2 <:+ text := by
  unfold questionMark
  split
  · exact List.suffix_cons _ _
  · exact List.suffix_rfl

/-- **A member is read from the text that it stands in.** -/
theorem isFrom_of_memberAt? {text after : List Char} {item : Item}
    (h : memberAt? text = some (item, after)) : item.IsFrom text := by
  unfold memberAt? at h
  dsimp only at h
  split at h
  · next c name rest hname hrest =>
      obtain ⟨⟨type, after⟩, htype, he⟩ := Option.map_eq_some_iff.mp h
      obtain ⟨rfl, -⟩ := Prod.mk.inj he
      obtain ⟨hsub, hchars⟩ := subset_of_typeText? htype
      have hsuffix : ':' :: rest <:+ text :=
        hrest ▸ (questionMark_suffix _).trans (List.dropWhile_suffix _)
      refine ⟨⟨by simp [hname], fun d hd => List.mem_takeWhile_imp hd⟩, fun d hd => ?_, hchars⟩
      exact hsuffix.subset (List.mem_cons_of_mem _ (hsub hd))
  · exact nomatch h

/-- **An item is read from the text that it stands in.** -/
theorem isFrom_of_itemAt? {text after : List Char} {item : Item}
    (h : itemAt? text = some (item, after)) : item.IsFrom text := by
  unfold itemAt? at h
  split at h
  · next rest =>
      -- two stars: a doc comment, or a comment whose text starts with a star
      split at h
      · next inside _ hclose =>
          obtain ⟨rfl, -⟩ := Prod.mk.inj (Option.some.inj h)
          obtain ⟨hnoClose, rfl⟩ := eq_append_of_closeComment? hclose
          exact ⟨fun c hc => by simp [hc], hnoClose⟩
      · obtain ⟨_, -, he⟩ := Option.map_eq_some_iff.mp h
        exact (Prod.mk.inj he).1 ▸ trivial
  · obtain ⟨_, -, he⟩ := Option.map_eq_some_iff.mp h
    exact (Prod.mk.inj he).1 ▸ trivial
  · exact (Prod.mk.inj (Option.some.inj h)).1 ▸ trivial
  · exact isFrom_of_memberAt? h

/-- **Every item of a body is read from it.** -/
theorem isFrom_of_mem_items {body : List Char} : ∀ item ∈ items body, item.IsFrom body := by
  -- the recursion of the reader: the end, a skipped character, an item, and no item
  suffices walk : ∀ n text, ∀ item ∈ itemsAfter n text, item.IsFrom text from walk 0 body
  intro n text
  fun_induction itemsAfter n text with
  | case1 => exact fun _ hitem => nomatch hitem
  | case2 n c rest ih =>
      exact fun item hitem => (ih item hitem).mono (List.subset_cons_self c rest)
  | case3 c rest first after hfirst ih =>
      intro item hitem
      rcases List.mem_cons.mp hitem with rfl | hitem
      · exact isFrom_of_itemAt? hfirst
      · exact (ih item hitem).mono (List.subset_cons_self c rest)
  | case4 c rest hnone ih =>
      exact fun item hitem => (ih item hitem).mono (List.subset_cons_self c rest)

/-! ## Descriptions -/

theorem NoClose.mono {text inside : List Char} (h : NoClose text) (hwithin : inside <:+: text) :
    NoClose inside :=
  fun hin => h (hin.trans hwithin)

/-- Lines joined by blanks have no end mark if none of them has. -/
theorem noClose_intercalate {lines : List (List Char)} (h : ∀ line ∈ lines, NoClose line) :
    NoClose ([' '].intercalate lines) := by
  induction lines with
  | nil => exact noClose_of_not_mem List.not_mem_nil
  | cons line lines ih =>
      have hline := h line (by simp)
      have hrest := ih fun l hl => h l (by simp [hl])
      cases lines with
      | nil =>
          rw [List.intercalate_singleton]
          exact hline
      | cons next lines =>
          rw [List.intercalate_cons_cons, List.append_assoc, List.singleton_append]
          exact hline.append_cons hrest (by decide)

/-- A line of a doc comment without white space and stars around it is a part of the comment. -/
theorem docLine_of_mem_split {text piece : List Char} (h : piece ∈ split '\n' text) :
    trim ((trim piece).dropWhile (· == '*')) <:+: text
      ∧ '\n' ∉ trim ((trim piece).dropWhile (· == '*')) := by
  obtain ⟨hwithin, hline⟩ := infix_of_mem_split h
  have hpart : trim ((trim piece).dropWhile (· == '*')) <:+: piece :=
    (isInfix_trim _).trans ((List.dropWhile_suffix _).isInfix.trans (isInfix_trim piece))
  exact ⟨hpart.trans hwithin, fun hmem => hline (hpart.subset hmem)⟩

/-- **What is left of a doc comment is one trimmed line.** -/
theorem isProducedDoc_of_cleanDoc? {text : List Char} {description : String} (hclose : NoClose text)
    (hbrace : '\x7d' ∉ text) (h : cleanDoc? text = some description) :
    IsProducedDoc description := by
  unfold cleanDoc? at h
  dsimp only at h
  generalize hlines : ((split '\n' text).map fun line => trim ((trim line).dropWhile (· == '*'))).filter
    (fun line => decide (line ≠ [])) = lines at h
  have hline : ∀ line ∈ lines,
      (IsTrimmed line ∧ line ≠ []) ∧ line <:+: text ∧ '\n' ∉ line := by
    intro line hmem
    rw [← hlines] at hmem
    obtain ⟨hmem, hne⟩ := List.mem_filter.mp hmem
    obtain ⟨piece, hpiece, rfl⟩ := List.mem_map.mp hmem
    exact ⟨⟨isTrimmed_trim _, of_decide_eq_true hne⟩, docLine_of_mem_split hpiece⟩
  cases lines with
  | nil => exact nomatch h
  | cons first rest =>
      obtain rfl := Option.some.inj h
      obtain ⟨htrimmed, hne⟩ := @isTrimmed_intercalate [' '] (first :: rest) (by simp)
        fun line hmem => (hline line hmem).1
      have hchars : ∀ c ∈ [' '].intercalate (first :: rest), c ≠ '\n' ∧ c ≠ '\x7d' := by
        refine forall_mem_intercalate (List.forall_mem_singleton.mpr (by decide)) ?_
        intro line hmem c hc
        obtain ⟨-, hwithin, hfeed⟩ := hline line hmem
        exact ⟨fun he => hfeed (he ▸ hc), fun he => hbrace (hwithin.subset (he ▸ hc))⟩
      exact
        { ne_empty := fun he => hne (String.ofList_eq_empty_iff.mp he)
          line := by rw [String.toList_ofList]; exact fun hmem => (hchars _ hmem).1 rfl
          trimmed := by rw [String.toList_ofList]; exact htrimmed
          noClose := by
            rw [String.toList_ofList]
            exact noClose_intercalate fun line hmem => hclose.mono (hline line hmem).2.1
          brace := by rw [String.toList_ofList]; exact fun hmem => (hchars _ hmem).2 rfl }

/-! ## Rules -/

theorem isPrimitive_keywordKind (text : List Char) : (keywordKind text).isPrimitive = true := by
  unfold keywordKind
  dsimp only
  repeat' split
  all_goals rfl

/-- The literals of a union are its members without their quotes. -/
theorem isProducedValue_of_literals? {source : List Char} {members : List (List Char)}
    (hmembers : ∀ member ∈ members, IsMember member ∧ member ⊆ source
      ∧ ∀ c ∈ member, isTypeChar c = true ∧ c ≠ '\x7d')
    {values : List String} (h : literals? (unionSeparator.intercalate members) = some values) :
    values ≠ [] ∧ ∀ value ∈ values, IsProducedValue source value := by
  unfold literals? at h
  split at h
  · next hquote =>
    have hne : members ≠ [] := by
      rintro rfl
      exact absurd hquote (by decide)
    rw [map_filter_isQuote_intercalate hne fun member hmem => (hmembers member hmem).1] at h
    dsimp only at h
    generalize hkept : (members.map fun member => member.filter fun c => !isQuote c).filter
      (fun value => decide (value ≠ [])) = kept at h
    have hvalue : ∀ value ∈ kept, IsProducedValue source (String.ofList value) := by
      intro value hmem
      rw [← hkept] at hmem
      obtain ⟨hmem, hvalue_ne⟩ := List.mem_filter.mp hmem
      obtain ⟨member, hmember, rfl⟩ := List.mem_map.mp hmem
      obtain ⟨hisMember, hsub, hchars⟩ := hmembers member hmember
      refine ⟨fun he => of_decide_eq_true hvalue_ne (String.ofList_eq_empty_iff.mp he), ?_,
        fun c hc => ?_⟩
      · rw [String.toList_ofList]
        exact fun _ hc => hsub (List.mem_of_mem_filter hc)
      · rw [String.toList_ofList] at hc
        obtain ⟨hc, hquote⟩ := List.mem_filter.mp hc
        obtain ⟨htype, hbrace⟩ := hchars c hc
        have hbar : c ≠ '|' := fun he => hisMember.bar_not_mem (he ▸ hc)
        simp only [isQuote, isTypeChar, Bool.not_eq_true', Bool.or_eq_false_iff, beq_eq_false_iff_ne,
          Bool.and_eq_true, bne_iff_ne] at hquote htype
        simp [hquote, htype, hbar, hbrace]
    cases kept with
    | nil => exact absurd h (by simp)
    | cons first rest =>
        obtain rfl := Option.some.inj h
        refine ⟨by simp, fun value hmem => ?_⟩
        obtain ⟨literal, hliteral, rfl⟩ := List.mem_map.mp hmem
        exact hvalue literal hliteral
  · exact absurd h (by simp)

/-- **The text of a type stands for a keyword, a collection of a keyword, or a list of literals.** -/
theorem isProduced_rulesOfType {source text : List Char} (hsub : text ⊆ source)
    (hchars : ∀ c ∈ text, isTypeChar c = true ∧ c ≠ '\x7d') :
    (rulesOfType text).IsProduced source := by
  have hmembers : ∀ member ∈ (unionMembers text).filter (fun member => member ≠ nullWord),
      IsMember member ∧ member ⊆ source ∧ ∀ c ∈ member, isTypeChar c = true ∧ c ≠ '\x7d' := by
    intro member hmem
    obtain ⟨hisMember, hwithin⟩ := isMember_of_mem_unionMembers (List.mem_of_mem_filter hmem)
    exact ⟨hisMember, fun _ hc => hsub (hwithin.subset hc), fun c hc => hchars c (hwithin.subset hc)⟩
  unfold rulesOfType rulesOfUnion
  split
  · exact .collection (isPrimitive_keywordKind _)
  · split
    · next values hvalues =>
        obtain ⟨hne, hproduced⟩ := isProducedValue_of_literals? hmembers hvalues
        exact .literals hne hproduced
    · exact .keyword (isPrimitive_keywordKind _)

/-! ## Fields and schemas -/

/-- What is kept of a type when a comment is cut off. -/
theorem isPrefix_cutComment (quote : Option Char) (previous : Char) (text : List Char) :
    cutComment quote previous text <+: text := by
  fun_induction cutComment quote previous text with
  | case1 => exact List.prefix_rfl
  | case2 _ c rest q ih => exact List.cons_prefix_cons.mpr ⟨rfl, ih⟩
  | case3 _ c rest _ ih => exact List.cons_prefix_cons.mpr ⟨rfl, ih⟩
  | case4 => exact List.nil_prefix
  | case5 _ c rest _ _ ih => exact List.cons_prefix_cons.mpr ⟨rfl, ih⟩

theorem isName_ofList {name : List Char} (hne : name ≠ []) (h : ∀ c ∈ name, isWord c = true) :
    IsName (String.ofList name) where
  ne_empty := fun he => hne (String.ofList_eq_empty_iff.mp he)
  isWord := by rw [String.toList_ofList]; exact h

/-- The field of a member has only parts that its item shows. -/
theorem isProduced_fieldOfMember {source body name type : List Char} {optional : Bool}
    {description : Option String} (hsub : body ⊆ source) (hbrace : '\x7d' ∉ body)
    (hmember : (Item.member name optional type).IsFrom body)
    (hdescription : ∀ text, description = some text → IsProducedDoc text) :
    (fieldOfMember name optional (trim (withoutComment type)) description).IsProduced source := by
  obtain ⟨⟨hne, hname⟩, htype, hchars⟩ := hmember
  have hwithin : trim (withoutComment type) ⊆ type :=
    fun _ hc => (isPrefix_cutComment _ _ type).subset ((isInfix_trim _).subset hc)
  exact
    { name := isName_ofList hne hname
      defaultValue := rfl
      description := hdescription
      rules := isProduced_rulesOfType (fun _ hc => hsub (htype (hwithin hc))) fun c hc =>
        ⟨hchars c (hwithin hc), fun he => hbrace (htype (hwithin (he ▸ hc)))⟩ }

/-- **The fields of a body have only parts that its items show.** -/
theorem isProduced_of_mem_fieldsOfItems {source body : List Char} (hsub : body ⊆ source)
    (hbrace : '\x7d' ∉ body) {list : List Item} (hlist : ∀ item ∈ list, item.IsFrom body)
    {pending : Option String} (hpending : ∀ text, pending = some text → IsProducedDoc text) :
    ∀ field ∈ fieldsOfItems pending list, field.IsProduced source := by
  -- induction on the items; what is pending before each of them is the last doc comment, cleaned
  induction list generalizing pending with
  | nil => exact fun _ hfield => nomatch hfield
  | cons item list ih =>
      have hitem := hlist item (by simp)
      have hrest := fun i (hi : i ∈ list) => hlist i (List.mem_cons_of_mem item hi)
      cases item with
      | doc text =>
          refine ih hrest fun description hclean => ?_
          exact isProducedDoc_of_cleanDoc? hitem.2 (fun hmem => hbrace (hitem.1 hmem)) hclean
      | comment => exact ih hrest fun _ hnone => nomatch hnone
      | member name optional type =>
          intro field hfield
          rcases List.mem_cons.mp hfield with rfl | hfield
          · exact isProduced_fieldOfMember hsub hbrace hitem hpending
          · exact @ih hrest none (fun _ hnone => nomatch hnone) field hfield

/-- **An imported schema has only parts that a declaration can show.** -/
theorem isProduced_of_schema {source : String} {schema : Schema}
    (h : Import.schema source = .ok schema) : schema.IsProduced source.toList := by
  unfold Import.schema at h
  split at h
  · exact nomatch h
  · next declared hfound =>
      obtain rfl := Except.ok.inj h
      obtain ⟨front, head, rest, htext, hhead, -, hbrace⟩ := exists_of_findFrom? hfound
      obtain ⟨hne, hname⟩ := hhead.isWord_name
      have hsub : declared.body ⊆ source.toList := by
        intro c hc
        rw [htext]
        simp [hc]
      exact
        { name := isName_ofList hne hname
          description := rfl
          fields := isProduced_of_mem_fieldsOfItems hsub hbrace isFrom_of_mem_items
            fun _ hnone => nomatch hnone }

end SchemaForge.TypeScript.Import
