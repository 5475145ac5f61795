import SchemaForge.Proofs.Import.LineComment

/-!
# `Proofs.Import.Separator` — members between separators

The members of a declaration stand between separators: white space, semicolons, commas and line feeds
in any mixture, as long as one of them ends the type before it. Reading a member takes its name, its
mark and its type, with the white space after the type; at the next separator it stops, and whatever
separators follow are passed over. So every member is read as one field, and it does not matter how
the members are separated.

## Contents
- **Types.** `trim_withoutComment_blanks`: white space after a type changes nothing.
- **Members.** `WrittenMember`, and `fieldsOfItems_member`, one member and what ends its type.
- **Separators.** `isSeparator` and `items_separators`.
- **Declarations.** `fieldsOfItems_separated` and `schema_separated`.
-/

namespace SchemaForge.TypeScript.Import

open Text

/-! ## White space after a type -/

/-- White space holds neither a literal nor a comment, so nothing of it is cut off. -/
theorem cutComment_blanks {blanks : List Char} (h : ∀ c ∈ blanks, isBlank c = true)
    (quote : Option Char) (previous : Char) : cutComment quote previous blanks = blanks := by
  induction blanks generalizing quote previous with
  | nil => rfl
  | cons c blanks ih =>
      have hrest := fun quote => ih (fun d hd => h d (List.mem_cons_of_mem c hd)) quote c
      have hblank := h c List.mem_cons_self
      cases quote with
      | some q => rw [cutComment, hrest]
      | none =>
          have hquote : ¬ (c = '\'' ∨ c = '"') := by
            rintro (rfl | rfl)
            · exact absurd hblank (by decide)
            · exact absurd hblank (by decide)
          have hslash : c ≠ '/' := by
            rintro rfl
            exact absurd hblank (by decide)
          rw [cutComment, if_neg hquote, if_neg fun hstart => hslash hstart.1, hrest]

/-- **White space after a type changes nothing of what is read of it.** -/
theorem trim_withoutComment_blanks {type blanks : List Char} (hne : type ≠ [])
    (htrim : IsTrimmed type) (hcut : withoutComment type = type)
    (hblanks : ∀ c ∈ blanks, isBlank c = true) :
    trim (withoutComment (type ++ blanks)) = type := by
  -- no white space continues a slash at the end of the type to the start of a comment
  have hstart : ∀ c, isBlank c = false → blanks.head? ≠ some c := fun c hc hhead => by
    rw [hblanks c (List.mem_of_head? hhead)] at hc
    exact nomatch hc
  rw [withoutComment, cutComment_append hcut ⟨hstart '/' (by decide), hstart '*' (by decide)⟩,
    cutComment_blanks hblanks, trim_append_blanks hne htrim hblanks]

/-! ## Members -/

/-- A member as it is written, up to the end of its type. -/
structure WrittenMember where
  name : List Char
  optional : Bool := false
  /-- The white space after the colon. -/
  gap : List Char := []
  type : List Char

namespace WrittenMember

def text (member : WrittenMember) : List Char :=
  member.name ++ (optionalMark member.optional ++ ':' :: (member.gap ++ member.type))

/-- The field that the member is read as. -/
def field (member : WrittenMember) (description : Option String) : Field :=
  fieldOfMember member.name member.optional member.type description

/-- A member with a name and a trimmed type that holds nothing that would end it and no comment. -/
structure IsWritten (member : WrittenMember) : Prop where
  name_ne_nil : member.name ≠ []
  name : ∀ c ∈ member.name, isWord c = true
  gap : ∀ c ∈ member.gap, isBlank c = true
  type_ne_nil : member.type ≠ []
  type_trimmed : IsTrimmed member.type
  type : ∀ c ∈ member.type, isTypeChar c = true ∧ c ≠ '\x7d'
  type_uncut : withoutComment member.type = member.type

end WrittenMember

/-- **A member is read as its field**, with the description that is pending, whatever white space
    follows its type before something ends it. -/
theorem fieldsOfItems_member {member : WrittenMember} (h : member.IsWritten)
    {blanks after : List Char} (hblanks : ∀ c ∈ blanks, isBlank c = true ∧ isTypeChar c = true)
    (hafter : StopsAt isTypeChar after) (pending : Option String) :
    fieldsOfItems pending (items (member.text ++ (blanks ++ after)))
      = member.field pending :: fieldsOfItems none (items after) := by
  have htype : ∀ c ∈ member.type ++ blanks, isTypeChar c = true := by
    intro c hc
    rcases List.mem_append.mp hc with hc | hc
    · exact (h.type c hc).1
    · exact (hblanks c hc).2
  have hread := items_member member.optional h.name h.name_ne_nil h.gap htype
    (by simp [h.type_ne_nil]) (stopsAt_append h.type_ne_nil h.type_trimmed.1 blanks) hafter
  have htext : member.text ++ (blanks ++ after) = member.name ++ (optionalMark member.optional
      ++ ':' :: (member.gap ++ ((member.type ++ blanks) ++ after))) := by
    simp [WrittenMember.text]
  rw [htext, hread]
  show fieldOfMember _ _ (trim (withoutComment (member.type ++ blanks))) pending :: _ = _
  rw [trim_withoutComment_blanks h.type_ne_nil h.type_trimmed h.type_uncut
    fun c hc => (hblanks c hc).1]
  rfl

/-- A member that ends with a semicolon is read as its field, and the semicolon is passed over. -/
theorem fieldsOfItems_endedMember {member : WrittenMember} (h : member.IsWritten)
    (after : List Char) (pending : Option String) :
    fieldsOfItems pending (items (member.text ++ ';' :: after))
      = member.field pending :: fieldsOfItems none (items after) := by
  have hskip : items (';' :: after) = items after := items_skip (by decide) (by decide)
  have hread := fieldsOfItems_member h (List.forall_mem_nil _)
    (stopsAt_cons (by decide) : StopsAt isTypeChar (';' :: after)) pending
  rwa [List.nil_append, hskip] at hread

theorem WrittenMember.IsWritten.brace_not_mem {member : WrittenMember} (h : member.IsWritten) :
    '\x7d' ∉ member.text := by
  have hname : '\x7d' ∉ member.name := fun hmem => absurd (h.name _ hmem) (by decide)
  have hmark : '\x7d' ∉ optionalMark member.optional := by
    cases member.optional <;> decide
  have hgap : '\x7d' ∉ member.gap := fun hmem => absurd (h.gap _ hmem) (by decide)
  have htype : '\x7d' ∉ member.type := fun hmem => (h.type _ hmem).2 rfl
  simp [WrittenMember.text, hname, hmark, hgap, htype]

/-! ## Separators -/

/-- Whether a character may stand between two members. -/
def isSeparator (c : Char) : Bool := isBlank c || c == ';' || c == ','

/-- A separator that does not end a type is white space. -/
theorem isBlank_of_isSeparator {c : Char} (h : isSeparator c = true) (hc : isTypeChar c = true) :
    isBlank c = true := by
  simp only [isSeparator, Bool.or_eq_true, beq_iff_eq] at h
  rcases h with (h | rfl) | rfl
  · exact h
  · exact absurd hc (by decide)
  · exact absurd hc (by decide)

/-- No item starts with a separator. -/
theorem items_separators {separators : List Char} (h : ∀ c ∈ separators, isSeparator c = true)
    (rest : List Char) : items (separators ++ rest) = items rest := by
  induction separators with
  | nil => rfl
  | cons c separators ih =>
      have hc := h c List.mem_cons_self
      have hslash : c ≠ '/' := by
        rintro rfl
        exact absurd hc (by decide)
      have hword : isWord c = false := by
        simp only [isSeparator, Bool.or_eq_true, beq_iff_eq] at hc
        rcases hc with (hc | rfl) | rfl
        · exact isWord_eq_false_of_isBlank hc
        · decide
        · decide
      rw [List.cons_append, items_skip hslash hword, ih fun d hd => h d (List.mem_cons_of_mem c hd)]

/-! ## Declarations -/

/-- Members, each with the separators after it. -/
def separatedText (body : List (WrittenMember × List Char)) : List Char :=
  body.flatMap fun part => part.1.text ++ part.2

/-- The parts of a body are members and separators, and between two members something ends the type of
    the first one. -/
structure IsSeparated (body : List (WrittenMember × List Char)) : Prop where
  member : ∀ part ∈ body, part.1.IsWritten
  separators : ∀ part ∈ body, ∀ c ∈ part.2, isSeparator c = true
  ends : ∀ part ∈ body.dropLast, ∃ c ∈ part.2, isTypeChar c = false

theorem IsSeparated.tail {part : WrittenMember × List Char}
    {body : List (WrittenMember × List Char)} (h : IsSeparated (part :: body)) :
    IsSeparated body where
  member := fun other hother => h.member other (List.mem_cons_of_mem part hother)
  separators := fun other hother => h.separators other (List.mem_cons_of_mem part hother)
  ends := fun other hother => h.ends other (by
    cases body with
    | nil => exact nomatch hother
    | cons next body => exact List.mem_cons_of_mem part hother)

/-- The separators after a member stop its type, or the body ends with them. -/
theorem IsSeparated.stopsAt {part : WrittenMember × List Char}
    {body : List (WrittenMember × List Char)} (h : IsSeparated (part :: body)) :
    StopsAt isTypeChar (part.2.dropWhile isTypeChar ++ separatedText body) := by
  cases body with
  | nil => exact stopsAt_dropWhile_append part.2 stopsAt_nil
  | cons next body =>
      obtain ⟨c, hc, hstop⟩ := h.ends part List.mem_cons_self
      have hne : part.2.dropWhile isTypeChar ≠ [] := by
        intro hnil
        have hall := List.dropWhile_eq_nil_iff.mp hnil c hc
        rw [hstop] at hall
        exact nomatch hall
      exact stopsAt_append hne (stopsAt_dropWhile part.2) _

/-- **Members between separators are read one by one.** -/
theorem fieldsOfItems_separated {body : List (WrittenMember × List Char)} (h : IsSeparated body) :
    fieldsOfItems none (items (separatedText body)) = body.map fun part => part.1.field none := by
  -- induction on the members; each starts where the separators before it end
  induction body with
  | nil => rfl
  | cons part body ih =>
      have hseparators := h.separators part List.mem_cons_self
      have hblanks : ∀ c ∈ part.2.takeWhile isTypeChar,
          isBlank c = true ∧ isTypeChar c = true := by
        intro c hc
        have htype : isTypeChar c = true := List.mem_takeWhile_imp hc
        have hmem := (List.takeWhile_prefix isTypeChar).subset hc
        exact ⟨isBlank_of_isSeparator (hseparators c hmem) htype, htype⟩
      have hskip : ∀ c ∈ part.2.dropWhile isTypeChar, isSeparator c = true :=
        fun c hc => hseparators c ((List.dropWhile_suffix isTypeChar).subset hc)
      have htext : separatedText (part :: body) = part.1.text ++ (part.2.takeWhile isTypeChar
          ++ (part.2.dropWhile isTypeChar ++ separatedText body)) := by
        rw [← List.append_assoc (part.2.takeWhile isTypeChar), List.takeWhile_append_dropWhile]
        simp [separatedText]
      rw [htext, fieldsOfItems_member (h.member part List.mem_cons_self) hblanks h.stopsAt,
        items_separators hskip, ih h.tail, List.map_cons]

theorem IsSeparated.brace_not_mem {body : List (WrittenMember × List Char)} (h : IsSeparated body) :
    '\x7d' ∉ separatedText body := by
  intro hmem
  obtain ⟨part, hpart, hin⟩ := List.mem_flatMap.mp hmem
  rcases List.mem_append.mp hin with hin | hin
  · exact (h.member part hpart).brace_not_mem hin
  · exact absurd (h.separators part hpart _ hin) (by decide)

theorem separatedText_ne_nil {body : List (WrittenMember × List Char)} (hne : body ≠ [])
    (h : IsSeparated body) : separatedText body ≠ [] := by
  obtain ⟨part, body, rfl⟩ := List.exists_cons_of_ne_nil hne
  simp [separatedText, WrittenMember.text, (h.member part List.mem_cons_self).name_ne_nil]

/-- **Every declaration of the documented grammar is read**: its name, no description, and one field
    for each member in order, which shows its name, its mark and its type. The separators do not
    matter: a declaration of the same members with other ones is read as the same schema. -/
theorem schema_separated {name front start : List Char} {body : List (WrittenMember × List Char)}
    (asInterface : Bool) (hname : ∀ c ∈ name, isWord c = true) (hne : name ≠ [])
    (hfront : '\x7b' ∉ front) (hend : EndsOutsideWord front)
    (hstart : ∀ c ∈ start, isBlank c = true) (hbody : body ≠ []) (h : IsSeparated body)
    (back : List Char) :
    Import.schema (String.ofList (front ++ (headerText name asInterface
        ++ (start ++ separatedText body ++ '\x7d' :: back))))
      = .ok
          { name := String.ofList name, description := none
            fields := body.map fun part =>
              fieldOfMember part.1.name part.1.optional part.1.type none } ∧
    ∀ start' body' back', (∀ c ∈ start', isBlank c = true) → IsSeparated body' →
      body'.map Prod.fst = body.map Prod.fst →
      Import.schema (String.ofList (front ++ (headerText name asInterface
          ++ (start' ++ separatedText body' ++ '\x7d' :: back'))))
        = Import.schema (String.ofList (front ++ (headerText name asInterface
          ++ (start ++ separatedText body ++ '\x7d' :: back)))) := by
  have hread : ∀ start body back, (∀ c ∈ start, isBlank c = true) → body ≠ [] → IsSeparated body →
      Import.schema (String.ofList (front ++ (headerText name asInterface
          ++ (start ++ separatedText body ++ '\x7d' :: back))))
        = .ok
            { name := String.ofList name
              fields := (body.map Prod.fst).map fun member => member.field none } := by
    intro start body back hstart hbody h
    have hbrace : '\x7d' ∉ start ++ separatedText body := by
      rw [List.mem_append, not_or]
      exact ⟨fun hmem => absurd (hstart _ hmem) (by decide), h.brace_not_mem⟩
    have hnil : start ++ separatedText body ≠ [] := by
      simp [separatedText_ne_nil hbody h]
    rw [schema_of_body asInterface hname hne hfront hend hnil hbrace back,
      items_blanks hstart, fieldsOfItems_separated h, List.map_map]
    rfl
  refine ⟨?_, fun start' body' back' hstart' h' hsame => ?_⟩
  · rw [hread start body back hstart hbody h, List.map_map]
    rfl
  · have hbody' : body' ≠ [] := by
      rintro rfl
      exact hbody (List.map_eq_nil_iff.mp hsame.symm)
    rw [hread start' body' back' hstart' hbody' h', hsame, hread start body back hstart hbody h]

/-- Members with separators of several kinds after one, a quote left open and an ideographic space
    before the separator of another, and only a blank after the last one. -/
def separatedMembers : List (WrittenMember × List Char) :=
  [({ name := "id".toList, type := "string".toList }, ";,\n\t".toList),
   ({ name := "days".toList, optional := true, gap := [' '], type := "Date[] | null".toList },
     ['\n']),
   ({ name := "quote".toList, type := "it's".toList }, "\u3000,".toList),
   ({ name := "role".toList, gap := [' '], type := "'a//b' | \"c\"".toList }, [' '])]

/-- The same members, each on a line of its own. -/
def linedMembers : List (WrittenMember × List Char) :=
  separatedMembers.map fun part => (part.1, ['\n'])

/-- The members are read in an exported alias, and on lines of their own just the same. -/
theorem schema_separated_user :
    (IsSeparated separatedMembers ∧ IsSeparated linedMembers) ∧
    Import.schema ("export type User = \x7b id:string;,\n\tdays?: Date[] | null\nquote:it's\u3000,"
        ++ "role: 'a//b' | \"c\" \x7d")
      = .ok
          { name := "User"
            fields :=
              [{ name := "id", rules := .empty .string },
               { name := "days", required := false, nullable := true, rules := .arrayOf .date },
               { name := "quote", rules := .oneOf ["its"] },
               { name := "role", rules := .oneOf ["a//b", "c"] }] } ∧
    Import.schema ("export type User = \x7bid:string\ndays?: Date[] | null\nquote:it's\n"
        ++ "role: 'a//b' | \"c\"\n\x7d;")
      = Import.schema ("export type User = \x7b id:string;,\n\tdays?: Date[] | null\nquote:it's\u3000,"
        ++ "role: 'a//b' | \"c\" \x7d") := by
  have hwritten : ∀ part ∈ separatedMembers, part.1.IsWritten := by
    intro part hpart
    simp only [separatedMembers, List.mem_cons, List.not_mem_nil, or_false] at hpart
    rcases hpart with rfl | rfl | rfl | rfl <;>
      exact
        { name_ne_nil := by decide
          name := List.all_eq_true.mp (by decide)
          gap := List.all_eq_true.mp (by decide)
          type_ne_nil := by decide
          type_trimmed := isTrimmed_of_trim (by decide)
          type := List.all_iff_forall_prop.mp (by decide)
          type_uncut := by decide }
  have hseparators : ∀ part ∈ separatedMembers, part.2.all isSeparator = true := by decide
  have hseparated : IsSeparated separatedMembers :=
    { member := hwritten
      separators := fun part hpart => List.all_eq_true.mp (hseparators part hpart)
      ends := fun part hpart => by
        simp only [separatedMembers, List.dropLast, List.mem_cons, List.not_mem_nil, or_false] at hpart
        rcases hpart with rfl | rfl | rfl
        · exact ⟨';', List.mem_of_elem_eq_true rfl, rfl⟩
        · exact ⟨'\n', List.mem_of_elem_eq_true rfl, rfl⟩
        · exact ⟨',', List.mem_of_elem_eq_true rfl, rfl⟩ }
  have hlined : IsSeparated linedMembers := by
    have hpart : ∀ part ∈ linedMembers, part.1.IsWritten ∧ part.2 = ['\n'] := by
      intro part hpart
      obtain ⟨written, hmem, rfl⟩ := List.mem_map.mp hpart
      exact ⟨hwritten written hmem, rfl⟩
    exact
      { member := fun part h => (hpart part h).1
        separators := fun part h => by
          rw [(hpart part h).2]
          exact List.forall_mem_singleton.mpr rfl
        ends := fun part h => by
          rw [(hpart part (List.mem_of_mem_dropLast h)).2]
          exact ⟨'\n', List.mem_singleton_self _, rfl⟩ }
  have hend : EndsOutsideWord "export ".toList := by
    intro c hc
    obtain rfl := Option.some.inj hc
    decide
  obtain ⟨hread, hsame⟩ := @schema_separated "User".toList "export ".toList [' '] separatedMembers
    false (List.all_eq_true.mp (by decide)) (by decide) (by decide) hend
    (List.forall_mem_singleton.mpr isBlank_space) (by decide) hseparated []
  refine ⟨⟨hseparated, hlined⟩, (congrArg Import.schema (by decide +kernel)).trans
    (hread.trans (by rfl)), ?_⟩
  exact (congrArg Import.schema (by decide +kernel)).trans
    ((hsame [] linedMembers [';'] (fun _ hc => nomatch hc) hlined rfl).trans
      (congrArg Import.schema (by decide +kernel)))

end SchemaForge.TypeScript.Import
