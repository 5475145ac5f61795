import SchemaForge.Proofs.Import.Separator
import SchemaForge.Proofs.Text.Lines

/-!
# `Proofs.Import.DocComment` — the description of a member

A body is a sequence of pieces: doc comments, other comments and members, each on a line of its own
or over several lines. A member is described by the piece directly before it, if that is a doc comment
with a text; nothing else describes it, whatever the comments and the types look like. The reader
carries this as a pending description, and the induction is over the pieces: reading one of them
leaves pending exactly what that piece says about the next one.

## Contents
- **Types.** `withoutComment_of_noMarker`: a type without comment markers is kept.
- **Texts.** `cleanedText` and `cleanDoc?_eq`, what is left of a doc comment.
- **Pieces.** `Piece`, and `fieldsOfItems_piece`, one piece and what is pending after it.
- **Declarations.** `documentedFields` and `schema_documented`.
-/

namespace SchemaForge.TypeScript.Import

open Text

/-! ## Types without comments -/

theorem cutComment_of_noMarker {text : List Char} (hline : ¬ ['/', '/'] <:+: text)
    (hblock : ¬ ['/', '*'] <:+: text) (quote : Option Char) (previous : Char) :
    cutComment quote previous text = text := by
  induction text generalizing quote previous with
  | nil => rfl
  | cons c text ih =>
      have hrest := fun quote => ih
        (fun hin => hline (hin.trans (List.suffix_cons c text).isInfix))
        (fun hin => hblock (hin.trans (List.suffix_cons c text).isInfix)) quote c
      have hmarker : ¬ (c = '/' ∧ (text.head? = some '/' ∨ text.head? = some '*')) := by
        rintro ⟨rfl, hnext⟩
        obtain ⟨d, text, rfl⟩ : ∃ d rest, text = d :: rest :=
          List.exists_cons_of_ne_nil (by rintro rfl; simp at hnext)
        rcases hnext with hnext | hnext
        · exact hline ⟨[], text, by rw [← Option.some.inj hnext]; rfl⟩
        · exact hblock ⟨[], text, by rw [← Option.some.inj hnext]; rfl⟩
      cases quote with
      | some q => rw [cutComment, hrest]
      | none =>
          by_cases hquote : c = '\'' ∨ c = '"'
          · rw [cutComment, if_pos hquote, hrest]
          · rw [cutComment, if_neg hquote, if_neg hmarker, hrest]

/-- A type in which no comment starts is kept as it is. -/
theorem withoutComment_of_noMarker {type : List Char} (hline : ¬ ['/', '/'] <:+: type)
    (hblock : ¬ ['/', '*'] <:+: type) : withoutComment type = type :=
  cutComment_of_noMarker hline hblock none '\x00'

/-! ## The text of a doc comment -/

/-- The lines of a doc comment without white space and the stars they start with, as far as something
    is left of them, on one line. -/
def cleanedText (text : List Char) : List Char :=
  [' '].intercalate
    (((split '\n' text).map fun line => trim ((trim line).dropWhile (· == '*'))).filter (· ≠ []))

/-- **A doc comment describes a member by its text**, if there is one. -/
theorem cleanDoc?_eq (text : List Char) :
    cleanDoc? text
      = if cleanedText text = [] then none else some (String.ofList (cleanedText text)) := by
  unfold cleanDoc? cleanedText
  dsimp only
  generalize hlines : ((split '\n' text).map fun line =>
    trim ((trim line).dropWhile (· == '*'))).filter (· ≠ []) = lines
  have hall : ∀ line ∈ lines, line ≠ [] := by
    intro line hline
    rw [← hlines] at hline
    exact of_decide_eq_true (List.mem_filter.mp hline).2
  cases lines with
  | nil => rfl
  | cons line lines =>
      have hne : [' '].intercalate (line :: lines) ≠ [] := by
        have hline := hall line List.mem_cons_self
        cases lines with
        | nil => rwa [List.intercalate_singleton]
        | cons next lines => simp [List.intercalate_cons_cons, hline]
      rw [if_neg hne]

/-! ## Pieces of a body -/

/-- What a body is made of. -/
inductive Piece where
  | doc (text : List Char)
  | block (text : List Char)
  | line (text : List Char)
  | member (written : WrittenMember)

namespace Piece

def text : Piece → List Char
  | .doc text       => '/' :: '*' :: '*' :: (text ++ ['*', '/'])
  | .block text     => '/' :: '*' :: (text ++ ['*', '/'])
  | .line text      => '/' :: '/' :: text
  | .member written => written.text ++ [';']

/-- A comment ends where its text does, a block comment is no doc comment, and no piece ends the
    body. -/
def IsWritten : Piece → Prop
  | .doc text       => NoClose text ∧ '\x7d' ∉ text
  | .block text     => text ≠ [] ∧ text.head? ≠ some '*' ∧ NoClose text ∧ '\x7d' ∉ text
  | .line text      => '\n' ∉ text ∧ '\x7d' ∉ text
  | .member written => written.IsWritten

/-- What a piece says about the one after it. -/
def description? : Piece → Option String
  | .doc text => if cleanedText text = [] then none else some (String.ofList (cleanedText text))
  | _        => none

/-- The field of a piece, if it is a member, where `description` describes it. -/
def field? (description : Option String) : Piece → Option Field
  | .member written => some (written.field description)
  | _             => none

theorem text_ne_nil (piece : Piece) : piece.text ≠ [] := by
  cases piece <;> simp [text]

theorem IsWritten.brace_not_mem {piece : Piece} (h : piece.IsWritten) : '\x7d' ∉ piece.text := by
  cases piece with
  | doc text      => simp [Piece.text, h.2]
  | block text    => simp [Piece.text, h.2.2.2]
  | line text     => simp [Piece.text, h.2]
  | member written =>
      have hmember : '\x7d' ∉ written.text := WrittenMember.IsWritten.brace_not_mem h
      simp [Piece.text, hmember]

end Piece

/-- **A piece is read on its own**: as its field if it is a member, and what it says about the next
    piece is pending after it. -/
theorem fieldsOfItems_piece {piece : Piece} (h : piece.IsWritten) {after : List Char}
    (hafter : StopsAt (fun c => decide (c ≠ '\n')) after) (pending : Option String) :
    fieldsOfItems pending (items (piece.text ++ after))
      = (piece.field? pending).toList ++ fieldsOfItems piece.description? (items after) := by
  cases piece with
  | doc text =>
      have hread := items_doc h.1 after
      simp only [Piece.text, List.cons_append, List.append_assoc, List.nil_append]
      rw [hread, fieldsOfItems, cleanDoc?_eq]
      rfl
  | block text =>
      have hread := items_block h.1 h.2.1 h.2.2.1 after
      simp only [Piece.text, List.cons_append, List.append_assoc, List.nil_append]
      rw [hread]
      rfl
  | line text =>
      have hread := items_line h.1 hafter
      simp only [Piece.text, List.cons_append]
      rw [hread]
      rfl
  | member written =>
      simp only [Piece.text, List.append_assoc, List.singleton_append]
      rw [fieldsOfItems_endedMember h]
      rfl

/-! ## Declarations -/

/-- Pieces on lines of their own, each with the white space before it. -/
def documentedText (body : List (List Char × Piece)) : List Char :=
  ['\n'].intercalate (body.map fun part => part.1 ++ part.2.text)

/-- The pieces of a body are written between white space, and so is the end of the body. -/
structure IsDocumented (body : List (List Char × Piece)) (stop : List Char) : Prop where
  piece : ∀ part ∈ body, part.2.IsWritten
  blanks : ∀ part ∈ body, ∀ c ∈ part.1, isBlank c = true
  stop_blanks : ∀ c ∈ stop, isBlank c = true
  /-- A line comment at the end goes to the end of its line. -/
  stop_line : StopsAt (fun c => decide (c ≠ '\n')) stop

/-- The fields of the members among some pieces, each described by the piece directly before it;
    `before` stands before the first one. -/
def documentedFields (before : Option Piece) (pieces : List Piece) : List Field :=
  ((before :: pieces.map some).zip pieces).filterMap fun (before, piece) =>
    piece.field? (before.bind Piece.description?)

theorem documentedFields_cons (before : Option Piece) (piece : Piece) (pieces : List Piece) :
    documentedFields before (piece :: pieces)
      = (piece.field? (before.bind Piece.description?)).toList
        ++ documentedFields (some piece) pieces := by
  rw [documentedFields, List.map_cons, List.zip_cons_cons, List.filterMap_cons]
  dsimp only
  cases piece.field? (before.bind Piece.description?) with
  | none       => rfl
  | some field => rfl

theorem IsDocumented.tail {part : List Char × Piece} {body : List (List Char × Piece)}
    {stop : List Char} (h : IsDocumented (part :: body) stop) : IsDocumented body stop where
  piece := fun other hother => h.piece other (List.mem_cons_of_mem part hother)
  blanks := fun other hother => h.blanks other (List.mem_cons_of_mem part hother)
  stop_blanks := h.stop_blanks
  stop_line := h.stop_line

/-- **Pieces are read one by one.** -/
theorem fieldsOfItems_documented {body : List (List Char × Piece)} {stop : List Char}
    (h : IsDocumented body stop) (before : Option Piece) :
    fieldsOfItems (before.bind Piece.description?) (items (documentedText body ++ stop))
      = documentedFields before (body.map Prod.snd) := by
  -- induction over the pieces; what is pending is what the piece before says
  induction body generalizing before with
  | nil =>
      have hstop := items_blanks h.stop_blanks []
      rw [List.append_nil] at hstop
      rw [documentedText, List.map_nil, List.intercalate_nil, List.nil_append, hstop]
      rfl
  | cons part body ih =>
      obtain ⟨after, htext, hline, hafter⟩ : ∃ after,
          documentedText (part :: body) ++ stop = part.1 ++ (part.2.text ++ after) ∧
          StopsAt (fun c => decide (c ≠ '\n')) after ∧
          items after = items (documentedText body ++ stop) := by
        cases body with
        | nil => exact ⟨stop, by simp [documentedText], h.stop_line, rfl⟩
        | cons next body =>
            refine ⟨'\n' :: (documentedText (next :: body) ++ stop), ?_, stopsAt_cons (by simp),
              items_blank isBlank_newline _⟩
            simp [documentedText, List.intercalate_cons_cons]
      rw [htext, items_blanks (h.blanks part List.mem_cons_self),
        fieldsOfItems_piece (h.piece part List.mem_cons_self) hline, hafter, List.map_cons,
        documentedFields_cons]
      exact congrArg _ (ih h.tail (some part.2))

theorem IsDocumented.brace_not_mem {body : List (List Char × Piece)} {stop : List Char}
    (h : IsDocumented body stop) : '\x7d' ∉ documentedText body ++ stop := by
  have hblank : ∀ {c : Char}, isBlank c = true → c ≠ '\x7d' := by
    rintro c hc rfl
    exact absurd hc (by decide)
  have hpiece : ∀ text ∈ body.map (fun part => part.1 ++ part.2.text), ∀ c ∈ text,
      c ≠ '\x7d' := by
    intro text htext c hc
    obtain ⟨part, hpart, rfl⟩ := List.mem_map.mp htext
    rcases List.mem_append.mp hc with hc | hc
    · exact hblank (h.blanks part hpart c hc)
    · exact fun he => (h.piece part hpart).brace_not_mem (he ▸ hc)
  intro hmem
  rcases List.mem_append.mp hmem with hmem | hmem
  · exact forall_mem_intercalate (by simp) hpiece _ hmem rfl
  · exact hblank (h.stop_blanks _ hmem) rfl

theorem documentedText_ne_nil {body : List (List Char × Piece)} (hne : body ≠ []) :
    documentedText body ≠ [] := by
  obtain ⟨part, body, rfl⟩ := List.exists_cons_of_ne_nil hne
  cases body with
  | nil => simp [documentedText, part.2.text_ne_nil]
  | cons next body => simp [documentedText, List.intercalate_cons_cons]

/-- **Doc comments describe the member they precede and no other one.** The fields of a declaration
    are exactly the members in order, and a member is described by the cleaned text of the piece
    directly before it, if that is a doc comment and the text is not empty. -/
theorem schema_documented {name front stop : List Char} {body : List (List Char × Piece)}
    (asInterface : Bool) (hname : ∀ c ∈ name, isWord c = true) (hne : name ≠ [])
    (hfront : '\x7b' ∉ front) (hend : EndsOutsideWord front) (hbody : body ≠ [])
    (h : IsDocumented body stop) (back : List Char) :
    Import.schema (String.ofList (front ++ (headerText name asInterface
        ++ (documentedText body ++ stop ++ '\x7d' :: back))))
      = .ok
          { name := String.ofList name, description := none
            fields := documentedFields none (body.map Prod.snd) } := by
  have hnil : documentedText body ++ stop ≠ [] := by
    simp [documentedText_ne_nil hbody]
  have hread := fieldsOfItems_documented h none
  rw [schema_of_body asInterface hname hne hfront hend hnil h.brace_not_mem back]
  exact congrArg (fun fields => Except.ok (Schema.mk (String.ofList name) none fields)) hread

/-- Comments that look like members, a doc comment that another comment takes away, one that is used
    up by the member after it, and one without a text. -/
def documentedBody : List (List Char × Piece) :=
  [("\n  ".toList, .doc " The id: a;\n   * of // it ".toList),
   ("  ".toList, .member { name := "id".toList, gap := [' '], type := "string".toList }),
   ([], .member { name := "age".toList, optional := true, gap := [' '], type := "number".toList }),
   ([], .doc "* gone ".toList),
   ([], .line " b: string;".toList),
   ([], .member { name := "days".toList, gap := [' '], type := "Date[] | null".toList }),
   ([], .block " /** c: d; ".toList),
   ([], .doc "\n ** \n".toList),
   ([], .member { name := "role".toList, gap := [' '], type := "'a' | 'b'".toList })]

/-- Only the first member is described. -/
theorem schema_documented_user :
    IsDocumented documentedBody ['\n'] ∧
    Import.schema ("interface User \x7b\n  /** The id: a;\n   * of // it */\n  id: string;\n"
        ++ "age?: number;\n/*** gone */\n// b: string;\ndays: Date[] | null;\n/* /** c: d; */\n"
        ++ "/**\n ** \n*/\nrole: 'a' | 'b';\n\x7d\n")
      = .ok
          { name := "User"
            fields :=
              [{ name := "id", description := some "The id: a; of // it", rules := .empty .string },
               { name := "age", required := false, rules := .empty .number },
               { name := "days", nullable := true, rules := .arrayOf .date },
               { name := "role", rules := .oneOf ["a", "b"] }] } := by
  have hclose : ∀ text : List Char, ¬ ['*', '/'] <:+: text → NoClose text := fun _ h => h
  have hwritten : ∀ part ∈ documentedBody, part.2.IsWritten := by
    intro part hpart
    simp only [documentedBody, List.mem_cons, List.not_mem_nil, or_false] at hpart
    rcases hpart with rfl | rfl | rfl | rfl | rfl | rfl | rfl | rfl | rfl
    case inr.inl | inr.inr.inl | inr.inr.inr.inr.inr.inl | inr.inr.inr.inr.inr.inr.inr.inr =>
      exact
        { name_ne_nil := by decide
          name := List.all_eq_true.mp (by decide)
          gap := List.all_eq_true.mp (by decide)
          type_ne_nil := by decide
          type_trimmed := isTrimmed_of_trim (by decide)
          type := List.all_iff_forall_prop.mp (by decide)
          type_uncut := withoutComment_of_noMarker (by decide) (by decide) }
    · exact ⟨hclose _ (by decide), by decide⟩
    · exact ⟨hclose _ (by decide), by decide⟩
    · exact ⟨by decide, by decide⟩
    · exact ⟨by decide, by decide, hclose _ (by decide), by decide⟩
    · exact ⟨hclose _ (by decide), by decide⟩
  have hblanks : ∀ part ∈ documentedBody, part.1.all isBlank = true := by decide
  have hdocumented : IsDocumented documentedBody ['\n'] :=
    { piece := hwritten
      blanks := fun part hpart => List.all_eq_true.mp (hblanks part hpart)
      stop_blanks := List.forall_mem_singleton.mpr isBlank_newline
      stop_line := stopsAt_cons (by decide) }
  have hread := @schema_documented "User".toList [] ['\n'] documentedBody true
    (List.all_eq_true.mp (by decide)) (by decide) (by decide) (fun _ hc => nomatch hc)
    (by simp [documentedBody]) hdocumented ['\n']
  exact ⟨hdocumented, (congrArg Import.schema (by decide +kernel)).trans (hread.trans (by rfl))⟩

end SchemaForge.TypeScript.Import
