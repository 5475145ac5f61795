import SchemaForge.Proofs.Import.Declared
import SchemaForge.Proofs.Import.Item
import SchemaForge.Proofs.Import.TypeText
import SchemaForge.TypeScript.Import.Reader

/-!
# `Proofs.Import.LineComment` — comments at the ends of lines

A body is written one member per line, and a comment may follow at the end of a line. After a
semicolon or a comma the comment is an item of its own. Without one, the text of the type goes on
into the comment as far as its first separator: that part is cut off the type, and what follows the
separator is read as if it were part of the body. So a comment changes nothing if it stands after a
terminator, or if the type leaves no literal open and the rest of the comment starts no item.

## Contents
- **Cutting.** `openQuote` and `cutComment_append`: a comment is cut off after a closed type.
- **Reading on.** `isQuiet` and `fieldsOfItems_quiet`, the rest of a comment after a separator.
- **Lines.** `MemberLine`, and `fieldsOfItems_lineText`, line by line.
- **Declarations.** `schema_of_body`, `schema_of_memberLines` and `schema_comments`.
-/

namespace SchemaForge.TypeScript.Import

open Text

/-! ## Cutting a comment off a type -/

/-- The quote of the literal that a text leaves open, where `quote` is open before it. -/
def openQuote (quote : Option Char) (previous : Char) : List Char → Option Char
  | []        => quote
  | c :: rest =>
    match quote with
    | some q => openQuote (if c = q ∧ previous ≠ '\\' then none else some q) c rest
    | none   => openQuote (if c = '\'' ∨ c = '"' then some c else none) c rest

/-- A text that keeps all of its characters keeps them in front of anything that does not make its last
    character the start of a comment. What follows is cut with the literal open that the text leaves
    open. -/
theorem cutComment_append {text rest : List Char} {quote : Option Char} {previous : Char}
    (hcut : cutComment quote previous text = text)
    (hrest : rest.head? ≠ some '/' ∧ rest.head? ≠ some '*') :
    cutComment quote previous (text ++ rest)
      = text ++ cutComment (openQuote quote previous text) (text.getLast?.getD previous) rest := by
  induction text generalizing quote previous with
  | nil => rfl
  | cons c text ih =>
      rw [List.cons_append, List.getLast?_cons, Option.getD_some]
      cases quote with
      | some q =>   -- inside a literal every character is kept
          rw [cutComment] at hcut ⊢
          rw [ih (List.cons.inj hcut).2, openQuote, List.cons_append]
      | none =>
          by_cases hquote : c = '\'' ∨ c = '"'
          · rw [cutComment, if_pos hquote] at hcut ⊢
            rw [ih (List.cons.inj hcut).2, openQuote, if_pos hquote, List.cons_append]
          · rw [cutComment, if_neg hquote] at hcut ⊢
            by_cases hstart : c = '/' ∧ (text.head? = some '/' ∨ text.head? = some '*')
            · rw [if_pos hstart] at hcut
              exact absurd hcut (List.cons_ne_nil c text).symm
            · -- the last slash of the text does not start a comment with what follows the text
              have hstart' : ¬ (c = '/' ∧
                  ((text ++ rest).head? = some '/' ∨ (text ++ rest).head? = some '*')) := by
                rintro ⟨hc, hnext⟩
                cases text with
                | nil => exact hnext.elim hrest.1 hrest.2
                | cons d text => exact hstart ⟨hc, hnext⟩
              rw [if_neg hstart] at hcut
              rw [if_neg hstart', ih (List.cons.inj hcut).2, openQuote, if_neg hquote, List.cons_append]

/-- A comment is cut off a type that leaves no literal open, with the blank before it. -/
theorem trim_withoutComment_append {type : List Char} (hne : type ≠ []) (htrim : IsTrimmed type)
    (hcut : withoutComment type = type) (hclosed : openQuote none '\x00' type = none)
    (comment : List Char) :
    trim (withoutComment (type ++ ' ' :: '/' :: '/' :: comment)) = type := by
  have hcomment : cutComment none ' ' (' ' :: '/' :: '/' :: comment) = [' '] := by
    simp [cutComment]
  rw [withoutComment, cutComment_append hcut (by simp), hclosed, cutComment_previous _ ' ', hcomment,
    trim_append_blank hne htrim isBlank_space]

/-! ## Reading on in a comment -/

/-- Whether the name of a member and its colon stand at the front of a line. -/
def startsMember (line : List Char) : Bool :=
  !(line.takeWhile isWord).isEmpty && (questionMark (line.dropWhile isWord)).2.head? == some ':'

/-- Whether neither a member nor a block comment starts in a line before a comment takes its end. -/
def isQuiet : List Char → Bool
  | []              => true
  | '/' :: '/' :: _ => true
  | '/' :: '*' :: _ => false
  | c :: rest       => !startsMember (c :: rest) && isQuiet rest

theorem isWord_newline : isWord '\n' = false := isWord_eq_false_of_isBlank isBlank_newline

/-- A comment takes the rest of its line. -/
theorem items_lineComment {text : List Char} (hline : '\n' ∉ text) (rest : List Char) :
    items ('/' :: '/' :: (text ++ '\n' :: rest)) = .comment :: items rest := by
  rw [items_line hline (stopsAt_cons (by simp)), items_blank isBlank_newline]

/-- No member is read off a line at whose front none starts. -/
theorem memberAt?_eq_none {line : List Char} (h : startsMember line = false) (rest : List Char) :
    memberAt? (line ++ '\n' :: rest) = none := by
  have hsplit : line ++ '\n' :: rest
      = line.takeWhile isWord ++ (line.dropWhile isWord ++ '\n' :: rest) := by
    rw [← List.append_assoc, List.takeWhile_append_dropWhile]
  have hname : ∀ c ∈ line.takeWhile isWord, isWord c = true :=
    fun c hc => List.mem_takeWhile_imp hc
  have hstop : StopsAt isWord (line.dropWhile isWord ++ '\n' :: rest) :=
    stopsAt_dropWhile_append line (stopsAt_cons isWord_newline)
  unfold memberAt?
  rw [hsplit, takeWhile_run hname hstop, dropWhile_run hname hstop]
  cases hword : line.takeWhile isWord with
  | nil => rfl
  | cons d name =>
      have hcolon : (questionMark (line.dropWhile isWord)).2.head? ≠ some ':' := by
        simpa [startsMember, hword] using h
      -- the mark and the colon would both have to stand in the line: it ends before a line feed
      have hnext : (questionMark (line.dropWhile isWord ++ '\n' :: rest)).2.head? ≠ some ':' := by
        cases hdrop : line.dropWhile isWord with
        | nil => simp [questionMark]
        | cons e after =>
            rw [hdrop] at hcolon
            by_cases hmark : e = '?'
            · subst hmark
              cases after with
              | nil => simp [questionMark]
              | cons f after => exact hcolon
            · have hskip : ∀ tail, questionMark (e :: tail) = (false, e :: tail) := by
                intro tail
                unfold questionMark
                split
                · next he => exact absurd (List.cons.inj he).1 hmark
                · rfl
              rw [List.cons_append, hskip]
              rw [hskip] at hcolon
              exact hcolon
      dsimp only
      split
      · next after _ heq =>
          rw [heq] at hnext
          exact absurd rfl hnext
      · rfl

/-- **A quiet rest of a comment leaves the fields as they are.** -/
theorem fieldsOfItems_quiet {text : List Char} (hquiet : isQuiet text = true) (hline : '\n' ∉ text)
    (rest : List Char) :
    fieldsOfItems none (items (text ++ '\n' :: rest)) = fieldsOfItems none (items rest) := by
  -- induction along the places at which an item could start
  fun_induction isQuiet text with
  | case1 => rw [List.nil_append, items_blank isBlank_newline]
  | case2 text =>   -- a line comment takes the rest of the line
      have htext : '\n' ∉ text := fun hmem => hline (by simp [hmem])
      rw [List.cons_append, List.cons_append, items_lineComment htext]
      rfl
  | case3 text => exact absurd hquiet (by simp)   -- a block comment: not quiet
  | case4 c text hslash hstar ih =>   -- no item starts here
      rw [Bool.and_eq_true, Bool.not_eq_true'] at hquiet
      have hnone : itemAt? (c :: text ++ '\n' :: rest) = none := by
        have hmember := memberAt?_eq_none hquiet.1 rest
        rw [List.cons_append] at hmember ⊢
        unfold itemAt?
        split
        · next he => exact absurd he (by cases text <;> simp_all)
        · next he => exact absurd he (by cases text <;> simp_all)
        · next he => exact absurd he (by cases text <;> simp_all)
        · exact hmember
      rw [List.cons_append] at hnone ⊢
      rw [items_of_none hnone, ih hquiet.2 fun hmem => hline (List.mem_cons_of_mem c hmem)]

/-! ## Lines -/

/-- A line of a body with one member, and perhaps a comment at its end. -/
structure MemberLine where
  indent : List Char := []
  name : List Char
  optional : Bool := false
  gap : List Char := [' ']
  type : List Char
  terminator : List Char := []
  comment : Option (List Char) := none

namespace MemberLine

/-- A comment at the end of a line, with the blank before it. -/
def commentText : Option (List Char) → List Char
  | some comment => ' ' :: '/' :: '/' :: comment
  | none         => []

def text (line : MemberLine) : List Char :=
  line.indent ++ (line.name ++ (optionalMark line.optional ++ ':' :: (line.gap ++
    (line.type ++ (line.terminator ++ (commentText line.comment ++ ['\n']))))))

/-- The line without its comment. -/
def bare (line : MemberLine) : MemberLine := { line with comment := none }

/-- The field that the line is read as. -/
def field (line : MemberLine) : Field := fieldOfMember line.name line.optional line.type none

/-- A line whose parts are a name, a type, a terminator or none, and a comment on one line. -/
structure IsWritten (line : MemberLine) : Prop where
  indent : ∀ c ∈ line.indent, isBlank c = true
  name_ne_nil : line.name ≠ []
  name : ∀ c ∈ line.name, isWord c = true
  gap : ∀ c ∈ line.gap, isBlank c = true
  type_ne_nil : line.type ≠ []
  type_trimmed : IsTrimmed line.type
  type : ∀ c ∈ line.type, isTypeChar c = true ∧ c ≠ '\x7d'
  type_uncut : withoutComment line.type = line.type
  terminator : line.terminator ∈ [[';'], [','], []]
  comment : ∀ comment, line.comment = some comment → ∀ c ∈ comment, c ≠ '\n' ∧ c ≠ '\x7d'

/-- A comment without a terminator before it stands after a closed type, and after its first
    separator nothing starts in it. -/
def CommentIsQuiet (line : MemberLine) : Prop :=
  ∀ comment, line.comment = some comment → line.terminator = [] →
    openQuote none '\x00' line.type = none ∧ isQuiet (comment.dropWhile isTypeChar) = true

variable {line : MemberLine}

theorem IsWritten.bare (h : line.IsWritten) : line.bare.IsWritten :=
  { h with comment := fun _ hc => nomatch hc }

theorem commentIsQuiet_bare (line : MemberLine) : line.bare.CommentIsQuiet :=
  fun _ hc => nomatch hc

theorem IsWritten.terminator_cases (h : line.IsWritten) :
    line.terminator = [';'] ∨ line.terminator = [','] ∨ line.terminator = [] := by
  simpa using h.terminator

theorem IsWritten.newline_not_mem (h : line.IsWritten) {comment : List Char}
    (hc : line.comment = some comment) : '\n' ∉ comment :=
  fun hmem => (h.comment comment hc _ hmem).1 rfl

end MemberLine

/-- A member is read off the front of its line as far as its type goes. -/
theorem items_memberLine {line : MemberLine} (h : line.IsWritten) {type after : List Char}
    (hne : type ≠ []) (hstart : StopsAt isBlank type) (htype : ∀ c ∈ type, isTypeChar c = true)
    (hafter : StopsAt isTypeChar after) :
    items (line.indent ++ (line.name ++ (optionalMark line.optional ++ ':' :: (line.gap ++
      (type ++ after))))) = .member line.name line.optional type :: items after := by
  rw [items_blanks h.indent,
    items_member line.optional h.name h.name_ne_nil h.gap htype hne hstart hafter]

/-- A terminator and a comment of its own hold no member, whatever the comment says. -/
theorem fieldsOfItems_terminated {line : MemberLine} (h : line.IsWritten) (rest : List Char) :
    fieldsOfItems none
        (items (line.terminator ++ (MemberLine.commentText line.comment ++ '\n' :: rest)))
      = fieldsOfItems none (items rest) := by
  have hcomment : fieldsOfItems none (items (MemberLine.commentText line.comment ++ '\n' :: rest))
      = fieldsOfItems none (items rest) := by
    cases hc : line.comment with
    | none =>
        show fieldsOfItems none (items ('\n' :: rest)) = _
        rw [items_blank isBlank_newline]
    | some comment =>
        show fieldsOfItems none (items (' ' :: '/' :: '/' :: (comment ++ '\n' :: rest))) = _
        rw [items_blank isBlank_space, items_lineComment (h.newline_not_mem hc)]
        rfl
  rcases h.terminator_cases with ht | ht | ht
  · rw [ht, List.singleton_append, items_skip (by decide) (by decide), hcomment]
  · rw [ht, List.singleton_append, items_skip (by decide) (by decide), hcomment]
  · rw [ht, List.nil_append, hcomment]

/-- What ends a line stops its type, if its terminator or the end of the line comes next. -/
theorem stopsAt_isTypeChar_terminated {line : MemberLine} (h : line.IsWritten)
    (hend : line.terminator ≠ [] ∨ line.comment = none) (rest : List Char) :
    StopsAt isTypeChar (line.terminator ++ (MemberLine.commentText line.comment ++ '\n' :: rest)) := by
  rcases h.terminator_cases with ht | ht | ht
  · rw [ht]; exact stopsAt_cons (by decide)
  · rw [ht]; exact stopsAt_cons (by decide)
  · have hnone : line.comment = none := hend.resolve_left fun hne => hne ht
    rw [ht, hnone]
    exact stopsAt_cons (by decide)

theorem text_append (line : MemberLine) (rest : List Char) :
    line.text ++ rest = line.indent ++ (line.name ++ (optionalMark line.optional ++ ':' ::
      (line.gap ++ (line.type ++ (line.terminator ++ (MemberLine.commentText line.comment
        ++ '\n' :: rest)))))) := by
  simp only [MemberLine.text, List.append_assoc, List.cons_append, List.nil_append]

/-- **Where nothing ends the type, the comment reaches as far as its first separator**; what follows
    the separator is read as part of the body. -/
theorem fieldsOfItems_openLine {line : MemberLine} (h : line.IsWritten) {comment : List Char}
    (hcomment : line.comment = some comment) (hterminator : line.terminator = [])
    (hclosed : openQuote none '\x00' line.type = none) (rest : List Char) :
    fieldsOfItems none (items (line.text ++ rest))
      = line.field
          :: fieldsOfItems none (items (comment.dropWhile isTypeChar ++ '\n' :: rest)) := by
  have hsplit : line.type ++ (line.terminator ++ (MemberLine.commentText line.comment
        ++ '\n' :: rest))
      = (line.type ++ ' ' :: '/' :: '/' :: comment.takeWhile isTypeChar)
        ++ (comment.dropWhile isTypeChar ++ '\n' :: rest) := by
    have hparts : comment ++ '\n' :: rest = comment.takeWhile isTypeChar
        ++ (comment.dropWhile isTypeChar ++ '\n' :: rest) := by
      rw [← List.append_assoc, List.takeWhile_append_dropWhile]
    rw [hterminator, hcomment, List.nil_append]
    simp only [MemberLine.commentText, List.cons_append, List.append_assoc]
    rw [hparts]
  have htype : ∀ c ∈ line.type ++ ' ' :: '/' :: '/' :: comment.takeWhile isTypeChar,
      isTypeChar c = true := by
    intro c hc
    simp only [List.mem_append, List.mem_cons] at hc
    rcases hc with hc | rfl | rfl | rfl | hc
    · exact (h.type c hc).1
    · rfl
    · rfl
    · rfl
    · exact List.mem_takeWhile_imp hc
  have hstart : StopsAt isBlank (line.type ++ ' ' :: '/' :: '/' :: comment.takeWhile isTypeChar) :=
    stopsAt_append h.type_ne_nil h.type_trimmed.1 _
  -- the type stops at the separator, or at the end of the line if the comment has none
  have hafter : StopsAt isTypeChar (comment.dropWhile isTypeChar ++ '\n' :: rest) :=
    stopsAt_dropWhile_append comment (stopsAt_cons (by decide))
  rw [text_append, hsplit, items_memberLine h (by simp) hstart htype hafter]
  show fieldOfMember _ _ (trim (withoutComment (line.type ++ _))) none :: _ = _
  rw [trim_withoutComment_append h.type_ne_nil h.type_trimmed h.type_uncut hclosed]
  rfl

/-- **A line is read as its field**, with or without its comment. -/
theorem fieldsOfItems_lineText {line : MemberLine} (h : line.IsWritten)
    (hquiet : line.CommentIsQuiet) (rest : List Char) :
    fieldsOfItems none (items (line.text ++ rest))
      = line.field :: fieldsOfItems none (items rest) := by
  by_cases hend : line.terminator ≠ [] ∨ line.comment = none
  · -- the type ends before the comment
    have huncut : trim (withoutComment line.type) = line.type := by
      rw [h.type_uncut, trim_of_isTrimmed h.type_trimmed]
    rw [text_append, items_memberLine h h.type_ne_nil h.type_trimmed.1 (fun c hc => (h.type c hc).1)
      (stopsAt_isTypeChar_terminated h hend rest)]
    show fieldOfMember _ _ (trim (withoutComment line.type)) none :: _ = _
    rw [huncut, fieldsOfItems_terminated h rest]
    rfl
  · -- the type runs into the comment
    rw [not_or, not_not] at hend
    obtain ⟨hterminator, hsome⟩ := hend
    obtain ⟨comment, hcomment⟩ := Option.ne_none_iff_exists'.mp hsome
    obtain ⟨hclosed, hrest⟩ := hquiet comment hcomment hterminator
    have hnewline : '\n' ∉ comment.dropWhile isTypeChar :=
      fun hmem => h.newline_not_mem hcomment ((List.dropWhile_suffix _).subset hmem)
    rw [fieldsOfItems_openLine h hcomment hterminator hclosed, fieldsOfItems_quiet hrest hnewline]

/-! ## Declarations -/

/-- The line that opens a declaration, up to and with its brace. -/
def headerText (name : List Char) (asInterface : Bool) : List Char :=
  if asInterface then "interface ".toList ++ (name ++ [' ', '\x7b'])
  else "type ".toList ++ (name ++ [' ', '=', ' ', '\x7b'])

/-- **A declaration is read as its name and the fields of its body.** -/
theorem schema_of_body {name front body : List Char} (asInterface : Bool)
    (hname : ∀ c ∈ name, isWord c = true) (hne : name ≠ []) (hfront : '\x7b' ∉ front)
    (hend : EndsOutsideWord front) (hbody : body ≠ []) (hbrace : '\x7d' ∉ body) (back : List Char) :
    Import.schema (String.ofList
        (front ++ (headerText name asInterface ++ (body ++ '\x7d' :: back))))
      = .ok { name := String.ofList name, fields := fieldsOfItems none (items body) } := by
  have hblank : ∀ c ∈ [' '], isBlank c = true := List.forall_mem_singleton.mpr isBlank_space
  obtain ⟨head, hhead, htext⟩ : ∃ head, IsHead name head
      ∧ headerText name asInterface = head ++ ['\x7b'] := by
    cases asInterface with
    | true =>
        exact ⟨_, .intro (Or.inl rfl) hblank (by simp) hname hne (.blanks hblank),
          by simp [headerText]⟩
    | false =>
        exact ⟨_, .intro (Or.inr rfl) hblank (by simp) hname hne (.equals hblank hblank),
          by simp [headerText]⟩
  have hfind := find?_append back hhead hfront hend hbody hbrace
  unfold Import.schema
  rw [String.toList_ofList, htext, List.append_assoc, List.singleton_append, hfind]

/-- A declaration with one member on each line of its body. -/
def declarationText (name : List Char) (asInterface : Bool) (lines : List MemberLine) : List Char :=
  headerText name asInterface ++ '\n' :: (lines.flatMap MemberLine.text ++ ['\x7d'])

/-- **Lines are read one by one.** -/
theorem fieldsOfItems_memberLines {lines : List MemberLine} (h : ∀ line ∈ lines, line.IsWritten)
    (hquiet : ∀ line ∈ lines, line.CommentIsQuiet) :
    fieldsOfItems none (items (lines.flatMap MemberLine.text)) = lines.map MemberLine.field := by
  induction lines with
  | nil => rfl
  | cons line lines ih =>
      rw [List.flatMap_cons, fieldsOfItems_lineText (h line (by simp)) (hquiet line (by simp)),
        ih (fun l hl => h l (by simp [hl])) (fun l hl => hquiet l (by simp [hl])), List.map_cons]

theorem brace_not_mem_memberLine {line : MemberLine} (h : line.IsWritten) : '\x7d' ∉ line.text := by
  have not_blank : ∀ {run : List Char}, (∀ c ∈ run, isBlank c = true) → '\x7d' ∉ run :=
    fun hrun hmem => absurd (hrun _ hmem) (by decide)
  have hname : '\x7d' ∉ line.name := fun hmem => absurd (h.name _ hmem) (by decide)
  have hmark : '\x7d' ∉ optionalMark line.optional := by
    cases line.optional <;> decide
  have htype : '\x7d' ∉ line.type := fun hmem => (h.type _ hmem).2 rfl
  have hterminator : '\x7d' ∉ line.terminator := by
    rcases h.terminator_cases with ht | ht | ht
    · rw [ht]; decide
    · rw [ht]; decide
    · rw [ht]; decide
  have hcomment : '\x7d' ∉ MemberLine.commentText line.comment := by
    cases hc : line.comment with
    | none => exact List.not_mem_nil
    | some comment =>
        have hinside : '\x7d' ∉ comment := fun hmem => (h.comment comment hc _ hmem).2 rfl
        simp [MemberLine.commentText, hinside]
  simp [MemberLine.text, not_blank h.indent, not_blank h.gap, hname, hmark, htype, hterminator,
    hcomment]

/-- **A declaration is read as its name and the fields of its lines.** -/
theorem schema_of_memberLines {name front : List Char} {lines : List MemberLine} (asInterface : Bool)
    (hname : ∀ c ∈ name, isWord c = true) (hne : name ≠ []) (hfront : '\x7b' ∉ front)
    (hend : EndsOutsideWord front) (h : ∀ line ∈ lines, line.IsWritten)
    (hquiet : ∀ line ∈ lines, line.CommentIsQuiet) (back : List Char) :
    Import.schema (String.ofList (front ++ (declarationText name asInterface lines ++ back)))
      = .ok { name := String.ofList name, fields := lines.map MemberLine.field } := by
  have hbody : '\x7d' ∉ '\n' :: lines.flatMap MemberLine.text := by
    rw [List.mem_cons, not_or]
    refine ⟨by decide, fun hmem => ?_⟩
    obtain ⟨line, hline, hin⟩ := List.mem_flatMap.mp hmem
    exact brace_not_mem_memberLine (h line hline) hin
  have htext : declarationText name asInterface lines ++ back = headerText name asInterface
      ++ ('\n' :: lines.flatMap MemberLine.text ++ '\x7d' :: back) := by
    simp [declarationText]
  rw [htext, schema_of_body asInterface hname hne hfront hend (List.cons_ne_nil _ _) hbody back,
    items_blank isBlank_newline, fieldsOfItems_memberLines h hquiet]

/-- **Comments at the ends of lines change nothing that is imported**: a declaration with one member
    per line is read as the one without its comments, whatever the comments say after a terminator,
    and after a type without one as long as they are quiet. -/
theorem schema_comments {name front : List Char} {lines : List MemberLine} (asInterface : Bool)
    (hname : ∀ c ∈ name, isWord c = true) (hne : name ≠ []) (hfront : '\x7b' ∉ front)
    (hend : EndsOutsideWord front) (h : ∀ line ∈ lines, line.IsWritten)
    (hquiet : ∀ line ∈ lines, line.CommentIsQuiet) (back : List Char) :
    Import.schema (String.ofList (front ++ (declarationText name asInterface lines ++ back)))
      = Import.schema (String.ofList
          (front ++ (declarationText name asInterface (lines.map MemberLine.bare) ++ back))) ∧
    Import.schema (String.ofList
        (front ++ (declarationText name asInterface (lines.map MemberLine.bare) ++ back)))
      = .ok { name := String.ofList name, fields := lines.map MemberLine.field } := by
  have hbare : ∀ line ∈ lines.map MemberLine.bare, line.IsWritten := by
    intro line hline
    obtain ⟨commented, hcommented, rfl⟩ := List.mem_map.mp hline
    exact (h commented hcommented).bare
  have hbare_quiet : ∀ line ∈ lines.map MemberLine.bare, line.CommentIsQuiet := by
    intro line hline
    obtain ⟨commented, -, rfl⟩ := List.mem_map.mp hline
    exact commented.commentIsQuiet_bare
  have hfields : (lines.map MemberLine.bare).map MemberLine.field = lines.map MemberLine.field := by
    rw [List.map_map]
    rfl
  have hplain := schema_of_memberLines asInterface hname hne hfront hend hbare hbare_quiet back
  rw [hfields] at hplain
  exact ⟨(schema_of_memberLines asInterface hname hne hfront hend h hquiet back).trans hplain.symm,
    hplain⟩

/-- Lines with a comment after a semicolon that names a member, one after a comma that opens a block
    comment, one after a literal with a comment mark in it, and one with a separator and no member. -/
def commentedLines : List MemberLine :=
  [{ indent := "  ".toList, name := "id".toList, type := "string".toList, terminator := [';'],
     comment := some " first; second: number".toList },
   { indent := "  ".toList, name := "age".toList, optional := true, type := "number | null".toList,
     terminator := [','], comment := some "* /* isn't a 'literal'".toList },
   { indent := "  ".toList, name := "link".toList, type := "'http://a' | 'b'".toList,
     comment := some " where it leads".toList },
   { indent := "  ".toList, name := "role".toList, type := "Role".toList,
     comment := some " admin, or guest; never both // see: roles".toList }]

/-- The commented lines are read as the bare ones, in an exported interface. -/
theorem schema_comments_user :
    (∀ line ∈ commentedLines, line.IsWritten ∧ line.CommentIsQuiet) ∧
    Import.schema (String.ofList ("export ".toList ++
        (declarationText "User".toList true commentedLines ++ ";\n".toList)))
      = Import.schema ("export interface User \x7b\n  id: string;\n  age?: number | null,\n"
          ++ "  link: 'http://a' | 'b'\n  role: Role\n\x7d;\n") := by
  have hwritten : ∀ line ∈ commentedLines, line.IsWritten := by
    intro line hline
    simp only [commentedLines, List.mem_cons, List.not_mem_nil, or_false] at hline
    rcases hline with rfl | rfl | rfl | rfl <;>
      exact
        { indent := List.all_eq_true.mp (by decide)
          name_ne_nil := by decide
          name := List.all_eq_true.mp (by decide)
          gap := List.all_eq_true.mp (by decide)
          type_ne_nil := by decide
          type_trimmed := isTrimmed_of_trim (by decide)
          type := List.all_iff_forall_prop.mp (by decide)
          type_uncut := by decide
          terminator := by decide
          comment := fun comment hcomment => by
            obtain rfl := Option.some.inj hcomment
            exact List.all_iff_forall_prop.mp (by decide) }
  have hquiet : ∀ line ∈ commentedLines, line.CommentIsQuiet := by
    intro line hline comment hcomment hterminator
    simp only [commentedLines, List.mem_cons, List.not_mem_nil, or_false] at hline
    rcases hline with rfl | rfl | rfl | rfl
    · exact absurd hterminator (by decide)
    · exact absurd hterminator (by decide)
    · obtain rfl := Option.some.inj hcomment
      decide
    · obtain rfl := Option.some.inj hcomment
      decide
  have hend : EndsOutsideWord "export ".toList := by
    intro c hc
    obtain rfl := Option.some.inj hc
    decide
  have hread := @schema_comments "User".toList "export ".toList commentedLines true
    (List.all_eq_true.mp (by decide)) (by decide) (by decide) hend hwritten hquiet ";\n".toList
  exact ⟨fun line hline => ⟨hwritten line hline, hquiet line hline⟩,
    hread.1.trans (congrArg Import.schema (by decide +kernel))⟩

/-- A comment that is not quiet: after its semicolon a member is read. -/
example : Import.schema "interface A \x7b\n  a: string // first; b: number\n\x7d"
    = .ok { name := "A", fields := [{ name := "a", rules := .empty .string },
        { name := "b", rules := .empty .number }] } := by
  cbv

end SchemaForge.TypeScript.Import
