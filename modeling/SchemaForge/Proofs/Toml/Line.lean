import SchemaForge.Document.Toml.Writer
import SchemaForge.Proofs.Document.Member
import SchemaForge.Proofs.Text.Run
import SchemaForge.Proofs.Toml.Quoted

/-!
# `Proofs.Toml.Line` — written lines are read one by one

A line is read as what it was written for, whatever follows its line feed. So a text of written
lines is read as the lines in their order, and what a line holds is shown for each line alone.

## Contents
- **Values.** `IsLineValue`, and `value?_inlineText`.
- **Keys.** `IsBare`, and `key?_bare`.
- **Lines.** `ReadsAs`, `readsAs_entry` and `readsAs_plainLines`.
- **Texts.** `lines?_linesText`.
-/

namespace SchemaForge.Document.Toml

open Text

/-! ## Values -/

/-- A value that takes one line and is no number: a truth value, a text without line feeds, or a list
    of such texts. -/
inductive IsLineValue : Value → Prop where
  | bool (value : Bool) : IsLineValue (.bool value)
  | text {text : String} (h : '\n' ∉ text.toList) : IsLineValue (.text text)
  | texts {texts : List String} (h : ∀ text ∈ texts, '\n' ∉ text.toList) :
      IsLineValue (.list (texts.map .text))

theorem exists_enclosed (mark : String) (hasLines : Bool) (inside : List Char) :
    ∃ tail, (enclosed mark hasLines inside).toList = mark.toList ++ tail := by
  unfold enclosed
  rw [String.append_assoc, String.append_assoc, String.toList_append]
  exact ⟨_, rfl⟩

/-- A string starts with a mark of either kind. -/
theorem exists_quoted (text : String) :
    ∃ mark tail, (quoted text).toList = mark :: tail ∧ (mark = '"' ∨ mark = '\'') := by
  have hstarts : ∀ {mark : String} {c : Char}, mark.toList.head? = some c → (c = '"' ∨ c = '\'') →
      ∀ hasLines inside, ∃ c tail,
        (enclosed mark hasLines inside).toList = c :: tail ∧ (c = '"' ∨ c = '\'') := by
    intro mark c hmark hc hasLines inside
    obtain ⟨tail, htail⟩ := exists_enclosed mark hasLines inside
    obtain ⟨marks, hmarks⟩ := List.head?_eq_some_iff.mp hmark
    exact ⟨c, marks ++ tail, by rw [htail, hmarks]; rfl, hc⟩
  unfold quoted
  dsimp only
  split_ifs
  · exact hstarts rfl (Or.inl rfl) _ _
  · exact hstarts rfl (Or.inr rfl) _ _
  · exact hstarts rfl (Or.inl rfl) _ _
  · exact hstarts rfl (Or.inr rfl) _ _
  · exact hstarts rfl (Or.inl rfl) _ _
  · exact hstarts rfl (Or.inl rfl) _ _

/-- What may follow a string: no quote. -/
def EndsString (rest : List Char) : Prop := rest.head? ≠ some '\'' ∧ rest.head? ≠ some '"'

theorem value?_quoted {text : String} (h : '\n' ∉ text.toList) (fuel depth : Nat) {rest : List Char}
    (hrest : EndsString rest) :
    value? (fuel + 1) depth ((quoted text).toList ++ rest) = some (.scalar (.text text), rest) := by
  have hstring := string?_quoted h hrest.1 hrest.2
  obtain ⟨mark, tail, hquoted, hmark⟩ := exists_quoted text
  rw [hquoted, List.cons_append] at hstring ⊢
  have hvalue : value? (fuel + 1) depth (mark :: (tail ++ rest))
      = (string? (mark :: (tail ++ rest))).map
          fun read => (.scalar (.text (String.ofList read.1)), read.2) := by
    rcases hmark with rfl | rfl
    · rw [value?]
      · rfl
      all_goals simp
    · rw [value?]
      · rfl
      all_goals simp
  rw [hvalue, hstring]
  exact congrArg (fun read => some (Node.scalar (.text read), rest)) String.ofList_toList

/-! ## Lists -/

/-- Spaces before a character that is neither a space nor the start of a comment or line end are
    passed over. -/
theorem skipLines?_append {blanks : List Char} (hblanks : ∀ c ∈ blanks, isSpace c = true) {c : Char}
    (hc : isSpace c = false ∧ c ≠ '#' ∧ c ≠ '\n' ∧ c ≠ '\r') (tail : List Char) {length : Nat}
    (hlength : 0 < length) : skipLines? length (blanks ++ c :: tail) = some (c :: tail) := by
  obtain ⟨hspace, hcomment, hline, hreturn⟩ := hc
  have hskip : skipSpaces (blanks ++ c :: tail) = c :: tail := by
    unfold skipSpaces
    rw [List.dropWhile_append_of_pos hblanks, List.dropWhile_cons_of_neg (by simp [hspace])]
  have hend : lineEnd? (c :: tail) = none := by
    unfold lineEnd?
    split
    · next he => exact absurd (List.cons.inj he).1 hline
    · next he => exact absurd (List.cons.inj he).1 hreturn
    · rfl
  obtain ⟨n, rfl⟩ := Nat.exists_eq_add_one.mpr hlength
  rw [skipLines?, hskip]
  split
  · next he => exact absurd (List.cons.inj he).1 hcomment
  · rw [hend]

/-- The characters that a string starts with stop spaces. -/
theorem skipLines?_quoted {blanks : List Char} (hblanks : ∀ c ∈ blanks, isSpace c = true)
    (text : String) (rest : List Char) {length : Nat} (hlength : 0 < length) :
    skipLines? length (blanks ++ ((quoted text).toList ++ rest)) = some ((quoted text).toList ++ rest) := by
  obtain ⟨mark, tail, hquoted, hmark⟩ := exists_quoted text
  rw [hquoted, List.cons_append]
  rcases hmark with rfl | rfl
  · exact skipLines?_append hblanks (by decide) _ hlength
  · exact skipLines?_append hblanks (by decide) _ hlength

/-- An item of a list, after spaces: the last one, or one before others. -/
theorem items?_step {text : String} (h : '\n' ∉ text.toList) {blanks : List Char}
    (hblanks : ∀ c ∈ blanks, isSpace c = true) (fuel depth : Nat) (rest : List Char) :
    (items? (fuel + 2) depth (blanks ++ ((quoted text).toList ++ ']' :: rest))
      = some ([.scalar (.text text)], rest)) ∧
    items? (fuel + 2) depth (blanks ++ ((quoted text).toList ++ ',' :: rest))
      = (items? (fuel + 1) depth rest).map
          fun (items, after) => (.scalar (.text text) :: items, after) := by
  obtain ⟨first, tail, hquoted, hmark⟩ := exists_quoted text
  have hfirst : ∀ after, skipLines? (blanks ++ ((quoted text).toList ++ after)).length
      (blanks ++ ((quoted text).toList ++ after)) = some (first :: (tail ++ after)) := by
    intro after
    have hlength : 0 < (blanks ++ ((quoted text).toList ++ after)).length := by
      rw [hquoted, List.length_append, List.cons_append, List.length_cons]
      omega
    rw [skipLines?_quoted hblanks text after hlength, hquoted]
    rfl
  have hread : ∀ {c : Char}, c = ']' ∨ c = ',' → value? (fuel + 1) depth (first :: (tail ++ c :: rest))
      = some (.scalar (.text text), c :: rest) := by
    intro c hc
    rw [← List.cons_append, ← hquoted]
    exact value?_quoted h fuel depth (by rcases hc with rfl | rfl <;> simp [EndsString])
  have hnext : ∀ {c : Char}, c = ']' ∨ c = ',' → skipLines? (rest.length + 1) (c :: rest)
      = some (c :: rest) := by
    intro c hc
    exact skipLines?_append (List.forall_mem_nil (isSpace · = true))
      (by rcases hc with rfl | rfl <;> decide) rest (Nat.succ_pos _)
  constructor
  · rw [items?, hfirst]
    rcases hmark with rfl | rfl <;> simp [hread, hnext]
  · rw [items?, hfirst]
    cases hitems : items? (fuel + 1) depth rest <;> rcases hmark with rfl | rfl <;>
      simp [hread, hnext, hitems]

/-- **The items of a list of texts are read back.** -/
theorem items?_quoted {text : String} {texts : List String}
    (h : ∀ t ∈ text :: texts, '\n' ∉ t.toList) {blanks : List Char}
    (hblanks : ∀ c ∈ blanks, isSpace c = true) {fuel : Nat} (hfuel : texts.length + 2 ≤ fuel)
    (depth : Nat) (rest : List Char) :
    items? fuel depth
        (blanks ++ ((", ".intercalate ((text :: texts).map quoted)).toList ++ ']' :: rest))
      = some ((text :: texts).map fun t => .scalar (.text t), rest) := by
  have htext := h text List.mem_cons_self
  induction texts generalizing text blanks fuel with
  | nil =>
      obtain ⟨n, rfl⟩ : ∃ n, fuel = n + 2 := ⟨fuel - 2, by simp at hfuel; omega⟩
      rw [List.map_singleton, String.intercalate_singleton]
      exact (items?_step htext hblanks n depth rest).1
  | cons next texts ih =>
      obtain ⟨n, rfl⟩ : ∃ n, fuel = n + 2 := ⟨fuel - 2, by simp at hfuel; omega⟩
      have hspace : ∀ c ∈ [' '], isSpace c = true := List.forall_mem_singleton.mpr rfl
      have hrest := ih (fun t ht => h t (List.mem_cons_of_mem text ht)) hspace
        (show texts.length + 2 ≤ n + 1 by simp at hfuel; omega) (h next (by simp))
      have hsplit : (", ".intercalate ((text :: next :: texts).map quoted)).toList ++ ']' :: rest
          = (quoted text).toList ++ ',' :: ([' ']
              ++ ((", ".intercalate ((next :: texts).map quoted)).toList ++ ']' :: rest)) := by
        rw [List.map_cons, String.intercalate_cons_of_ne_nil (by simp), String.toList_append,
          String.toList_append, List.append_assoc, List.append_assoc]
        rfl
      rw [hsplit, (items?_step htext hblanks n depth _).2, hrest]
      rfl

theorem length_le_intercalate (texts : List String) :
    texts.length ≤ (", ".intercalate (texts.map quoted)).toList.length := by
  induction texts with
  | nil => exact Nat.zero_le _
  | cons text texts ih =>
      obtain ⟨mark, tail, hquoted, -⟩ := exists_quoted text
      cases texts with
      | nil => simp [hquoted]
      | cons next texts =>
          rw [List.map_cons, String.intercalate_cons_of_ne_nil (by simp), String.toList_append,
            String.toList_append, hquoted]
          simp only [List.length_cons, List.length_append] at ih ⊢
          omega

theorem itemTexts_text (texts : List String) : itemTexts (texts.map .text) = texts.map quoted := by
  induction texts with
  | nil => rw [List.map_nil, itemTexts, List.map_nil]
  | cons text texts ih => rw [List.map_cons, itemTexts, ih, inlineText, List.map_cons]

/-- **A value of one line is read back.** -/
theorem value?_inlineText {value : Value} (h : IsLineValue value) {fuel : Nat}
    (hfuel : (inlineText value).toList.length ≤ fuel) {rest : List Char} (hrest : EndsString rest) :
    value? (fuel + 2) depthLimit ((inlineText value).toList ++ rest)
      = some (Node.ofValue value, rest) := by
  cases h with
  | bool value =>
      rw [Node.ofValue]
      cases value
      · rw [inlineText]
        rfl
      · rw [inlineText]
        rfl
  | @text text hline =>
      rw [inlineText, Node.ofValue]
      exact value?_quoted hline _ _ hrest
  | @texts texts hline =>
      rw [inlineText, itemTexts_text] at hfuel ⊢
      have hlength := length_le_intercalate texts
      have htext : ("[" ++ ", ".intercalate (texts.map quoted) ++ "]").toList ++ rest
          = '[' :: ((", ".intercalate (texts.map quoted)).toList ++ ']' :: rest) := by
        simp
      rw [String.toList_append, String.toList_append, List.length_append, List.length_append] at hfuel
      have hitems : Node.ofItems (texts.map .text) = texts.map fun t => .scalar (.text t) := by
        rw [Node.ofItems_eq_map, List.map_map]
        exact List.map_congr_left fun t _ => by rw [Function.comp_apply, Node.ofValue]
      rw [htext, value?, if_neg (by decide), Node.ofValue, hitems]
      cases texts with
      | nil => rfl
      | cons text texts =>
          have hread := items?_quoted hline (List.forall_mem_nil (isSpace · = true))
            (show texts.length + 2 ≤ fuel + 1 by
              have : "[".toList.length = 1 := rfl
              rw [List.length_cons] at hlength
              omega) (depthLimit - 1) rest
          rw [List.nil_append] at hread
          rw [hread]
          rfl

/-! ## Keys -/

/-- A key that needs no quotes. -/
def IsBare (key : String) : Prop := key ≠ "" ∧ key.toList.all isBareChar = true

instance (key : String) : Decidable (IsBare key) := inferInstanceAs (Decidable (_ ∧ _))

theorem ne_of_isBareChar {c d : Char} (h : isBareChar c = true) (hd : isBareChar d = false) : c ≠ d := by
  rintro rfl
  exact Bool.false_ne_true (hd.symm.trans h)

/-- What starts with a character that may stand in a bare key is no space. -/
theorem skipSpaces_bare {c : Char} (h : isBareChar c = true) (rest : List Char) :
    skipSpaces (c :: rest) = c :: rest := by
  have hspace : isSpace c = false := by
    unfold isSpace
    rw [Bool.or_eq_false_iff, beq_eq_false_iff_ne, beq_eq_false_iff_ne]
    exact ⟨ne_of_isBareChar h (by decide), ne_of_isBareChar h (by decide)⟩
  rw [skipSpaces, List.dropWhile_cons_of_neg (by simp [hspace])]

theorem keyText_of_isBare {key : String} (h : IsBare key) : keyText key = key := if_pos h

/-- A key starts with a character that stands for itself. -/
theorem IsBare.exists_cons {key : String} (h : IsBare key) :
    ∃ c tail, key.toList = c :: tail ∧ isBareChar c = true := by
  cases htext : key.toList with
  | nil => exact absurd (String.toList_eq_nil_iff.mp htext) h.1
  | cons c tail =>
      refine ⟨c, tail, rfl, ?_⟩
      have hall := h.2
      rw [htext, List.all_cons, Bool.and_eq_true] at hall
      exact hall.1

theorem simpleKey?_bare {key : String} (h : IsBare key) {rest : List Char}
    (hstop : StopsAt isBareChar rest) : simpleKey? (key.toList ++ rest) = some (key, rest) := by
  obtain ⟨c, tail, htext, hc⟩ := h.exists_cons
  have hall : ∀ d ∈ key.toList, isBareChar d = true := List.all_eq_true.mp h.2
  have htake : (key.toList ++ rest).takeWhile isBareChar = key.toList := takeWhile_run hall hstop
  have hdrop : (key.toList ++ rest).dropWhile isBareChar = rest := dropWhile_run hall hstop
  unfold simpleKey?
  split
  · next he =>
      rw [htext] at he
      exact absurd (List.cons.inj he).1 (ne_of_isBareChar hc (by decide))
  · next he =>
      rw [htext] at he
      exact absurd (List.cons.inj he).1 (ne_of_isBareChar hc (by decide))
  · rw [htake, hdrop, htext]
    dsimp only
    rw [← htext, String.ofList_toList]

/-- **A bare key is read back**, up to what follows the spaces after it. -/
theorem key?_bare {key : String} (h : IsBare key) {parts : Nat} (hparts : 0 < parts)
    {rest : List Char} (hstop : StopsAt isBareChar rest) (hdot : (skipSpaces rest).head? ≠ some '.') :
    key? parts (key.toList ++ rest) = some ([], key, skipSpaces rest) := by
  obtain ⟨parts, rfl⟩ := Nat.exists_eq_add_one.mpr hparts
  obtain ⟨c, tail, htext, hc⟩ := h.exists_cons
  have hskip : skipSpaces (key.toList ++ rest) = key.toList ++ rest := by
    rw [htext, List.cons_append, skipSpaces_bare hc]
  rw [key?, hskip, simpleKey?_bare h hstop]
  dsimp only [bind, Option.bind]
  split
  · next he =>
      rw [he] at hdot
      exact absurd rfl hdot
  · rfl

/-! ## Lines -/

/-- The text of a line is read as the line, up to its line feed. -/
def ReadsAs (text : String) (line : Line) : Prop :=
  ∀ rest, line? (text.toList ++ '\n' :: rest) = some (line, '\n' :: rest)

theorem readsAs_blank : ReadsAs "" .blank := fun _ => rfl

/-- A value of one line starts with a character that is no space. -/
theorem exists_inlineText {value : Value} (h : IsLineValue value) :
    ∃ c tail, (inlineText value).toList = c :: tail ∧ isSpace c = false := by
  cases h with
  | bool value =>
      cases value
      · exact ⟨'f', _, by rw [inlineText]; rfl, by decide⟩
      · exact ⟨'t', _, by rw [inlineText]; rfl, by decide⟩
  | @text text hline =>
      obtain ⟨mark, tail, hquoted, hmark⟩ := exists_quoted text
      rw [inlineText]
      exact ⟨mark, tail, hquoted, by rcases hmark with rfl | rfl <;> decide⟩
  | texts hline =>
      rw [inlineText, String.append_assoc, String.toList_append]
      exact ⟨'[', _, rfl, by decide⟩

/-- The line of an entry. -/
def entryText (entry : String × Value) : String := keyText entry.1 ++ " = " ++ inlineText entry.2

/-- The entry that such a line holds. -/
def entryLine (entry : String × Value) : Line := .entry [] entry.1 (Node.ofValue entry.2)

/-- A line that starts like a bare key holds an entry. -/
theorem line?_bare {c : Char} (hc : isBareChar c = true) (tail : List Char) :
    line? (c :: tail) = (key? (depthLimit - 1) (c :: tail)).bind fun (path, key, rest) =>
      match rest with
      | '=' :: rest => (value? (2 * rest.length + 2) depthLimit (skipSpaces rest)).bind
          fun (node, rest) => some (.entry path key node, rest)
      | _           => none := by
  have hend : lineEnd? (c :: tail) = none := by
    unfold lineEnd?
    split
    · next he => exact absurd (List.cons.inj he).1 (ne_of_isBareChar hc (by decide))
    · next he => exact absurd (List.cons.inj he).1 (ne_of_isBareChar hc (by decide))
    · rfl
  have hhash : (c == '#') = false := beq_false_of_ne (ne_of_isBareChar hc (by decide))
  unfold line?
  rw [skipSpaces_bare hc]
  split
  · next he => exact absurd (List.cons.inj he).1 (ne_of_isBareChar hc (by decide))
  · next he => exact absurd (List.cons.inj he).1 (ne_of_isBareChar hc (by decide))
  · rw [hend, if_neg (by simp [hhash])]
    rfl

/-- **The line of an entry is read back**, whatever follows its line feed. -/
theorem readsAs_entry {key : String} (hkey : IsBare key) {value : Value} (hvalue : IsLineValue value) :
    ReadsAs (entryText (key, value)) (entryLine (key, value)) := by
  intro rest
  obtain ⟨c, tail, htext, hc⟩ := hkey.exists_cons
  obtain ⟨d, inner, hinline, hd⟩ := exists_inlineText hvalue
  have hline : (entryText (key, value)).toList ++ '\n' :: rest
      = key.toList ++ (' ' :: '=' :: ' ' :: ((inlineText value).toList ++ '\n' :: rest)) := by
    unfold entryText
    rw [keyText_of_isBare hkey]
    simp
  have hstop : StopsAt isBareChar (' ' :: '=' :: ' ' :: ((inlineText value).toList ++ '\n' :: rest)) :=
    stopsAt_cons (by decide)
  have hread := key?_bare hkey (show 0 < depthLimit - 1 by decide) hstop (by
    show List.head? ('=' :: _) ≠ _
    simp)
  have hskip : skipSpaces (' ' :: ((inlineText value).toList ++ '\n' :: rest))
      = (inlineText value).toList ++ '\n' :: rest := by
    rw [hinline, skipSpaces, List.dropWhile_cons_of_pos (by decide), List.cons_append,
      List.dropWhile_cons_of_neg (by simp [hd])]
  rw [hline]
  rw [htext, List.cons_append] at hread ⊢
  rw [line?_bare hc, hread]
  show (value? _ depthLimit (skipSpaces (' ' :: _))).bind _ = _
  rw [hskip, value?_inlineText hvalue (by simp; omega) (by simp [EndsString])]
  rfl

theorem readsAs_fields : ReadsAs "[[fields]]" (.element [] "fields") := fun _ => rfl

theorem readsAs_validations : ReadsAs "[fields.validations]" (.table ["fields"] "validations") :=
  fun _ => rfl

/-! ## Texts -/

/-- The text of lines, each with its line feed. -/
def linesText (lines : List String) : String := String.join (lines.map (· ++ "\n"))

theorem toList_linesText_cons (text : String) (texts : List String) :
    (linesText (text :: texts)).toList = text.toList ++ '\n' :: (linesText texts).toList := by
  unfold linesText
  simp [String.join_cons]

/-- A line is taken off the front of a text with its line feed. -/
theorem lines?_append {text : String} {line : Line} (h : ReadsAs text line) (length : Nat)
    (rest : List Char) :
    lines? (length + 1) (text.toList ++ '\n' :: rest) = (lines? length rest).map (line :: ·) := by
  have hread := h rest
  have hend : endOfLine? ('\n' :: rest) = some rest := rfl
  obtain ⟨c, tail, htext⟩ : ∃ c tail, text.toList ++ '\n' :: rest = c :: tail := by
    cases text.toList with
    | nil => exact ⟨_, _, rfl⟩
    | cons c tail => exact ⟨_, _, rfl⟩
  rw [htext] at hread ⊢
  rw [lines?, hread]
  dsimp only [bind, Option.bind]
  rw [hend]
  dsimp only
  cases lines? length rest <;> rfl

/-- **A text of written lines is read as the lines.** -/
theorem lines?_linesText {written : List (String × Line)} (h : ∀ line ∈ written, ReadsAs line.1 line.2)
    {length : Nat} (hlength : written.length ≤ length) :
    lines? length (linesText (written.map Prod.fst)).toList = some (written.map Prod.snd) := by
  induction written generalizing length with
  | nil => cases length <;> rfl
  | cons line written ih =>
      obtain ⟨n, rfl⟩ : ∃ n, length = n + 1 := ⟨length - 1, by simp at hlength; omega⟩
      rw [List.map_cons, toList_linesText_cons, lines?_append (h line List.mem_cons_self),
        ih (fun other hother => h other (List.mem_cons_of_mem line hother)) (by simpa using hlength)]
      rfl

/-- A text has a line feed at least for every line. -/
theorem length_le_linesText (texts : List String) : texts.length ≤ (linesText texts).toList.length := by
  induction texts with
  | nil => exact Nat.zero_le _
  | cons text texts ih =>
      rw [toList_linesText_cons, List.length_append, List.length_cons, List.length_cons]
      omega

end SchemaForge.Document.Toml
