import SchemaForge.Proofs.Text.Lines
import SchemaForge.Proofs.Yaml.Scan

/-!
# `Proofs.Yaml.Tokens` — the tokens of a written tree

A tree in block style is scanned part by part. Where a value starts, the table around it is the
innermost open collection; where it ends, that table is the innermost one again, and the scan stands
before the next entry or item, whose column the margin gives.

## Contents
- **Trees.** `IsBlock`, the trees that are written without quotes around keys and without lines
  under a bar.
- **Tokens.** `valueTokens`.
- **Parts.** `reaches_entries`, `reaches_items` and `IsBlock.isScanned`.
- **Texts.** `tokens?_write`.
-/

namespace SchemaForge.Document.Yaml

/-! ## Trees -/

/-- A key that takes no quotes and is short enough for its colon to be found. -/
structure IsPlainKey (key : String) : Prop where
  form : formOf key.toList = .plain
  length : key.toList.length ≤ 1024

/-- A tree of truths, texts of one line, lists and tables with plain keys. No list is the item of a
    list. -/
inductive IsBlock : Value → Prop where
  | bool (value : Bool) : IsBlock (.bool value)
  | text {text : String} (h : '\n' ∉ text.toList) : IsBlock (.text text)
  | list {items : List Value} (hlist : ∀ item ∈ items, ∀ inner, item ≠ .list inner)
      (h : ∀ item ∈ items, IsBlock item) : IsBlock (.list items)
  | table {entries : List (String × Value)} (hkeys : ∀ entry ∈ entries, IsPlainKey entry.1)
      (h : ∀ entry ∈ entries, IsBlock entry.2) : IsBlock (.table entries)

/-! ## Tokens -/

/-- The token of a text, which shows whether it is written with quotes. -/
def textToken (text : String) : Token :=
  .scalar (if formOf text.toList = .plain then .plain else .quoted) text

mutual

/-- The tokens of a tree under a key. A list has no token of its own there. -/
def valueTokens : Value → List Token
  | .null          => [.scalar .plain "null"]
  | .bool value    => [.scalar .plain (if value then "true" else "false")]
  | .int n         => [.scalar .plain (Json.intText n)]
  | .float x       => [.scalar .plain (floatStyle.text x)]
  | .text text     => [textToken text]
  | .list []       => [.openList, .closeList]
  | .table []      => [.openTable, .closeTable]
  | .list items    => itemsTokens items
  | .table entries => .blockTable :: entriesTokens entries ++ [.blockEnd]

def itemsTokens : List Value → List Token
  | []            => []
  | item :: items => .dash :: valueTokens item ++ itemsTokens items

def entriesTokens : List (String × Value) → List Token
  | []                      => []
  | (key, value) :: entries =>
    .key :: .scalar .plain key :: .value :: valueTokens value ++ entriesTokens entries

end

/-! ## Forms of a text -/

/-- A text that is written without quotes means itself. -/
theorem isPlain_of_formOf {text : List Char} (h : formOf text = .plain) :
    isAmbiguous text = false ∧ IsPlain text := by
  unfold formOf at h
  split at h
  · split at h <;> exact nomatch h
  · split at h
    · next hplain =>
        rw [Bool.and_eq_true, Bool.not_eq_true'] at hplain
        refine ⟨hplain.1, isPlain_of_fitsPlain ?_ hplain.2⟩
        rintro rfl
        exact absurd hplain.1 (by decide)
    · split at h <;> exact nomatch h

/-- **A text of one line** stands without quotes, in single quotes or in double quotes. -/
theorem formOf_cases {text : List Char} (hline : '\n' ∉ text) :
    formOf text = .plain ∨ (formOf text = .singleQuoted ∧ IsSingle text) ∨
      formOf text = .doubleQuoted := by
  have hcontains : text.contains '\n' = false := by
    rw [Bool.eq_false_iff]
    exact fun hc => hline (List.contains_iff_mem.mp hc)
  unfold formOf
  rw [hcontains, if_neg Bool.false_ne_true]
  split
  · exact Or.inl rfl
  · split
    · next hsingle => exact Or.inr (Or.inl ⟨rfl, isSingle_of_fitsSingleQuoted hsingle hline⟩)
    · exact Or.inr (Or.inr rfl)

theorem IsPlainKey.plain {key : String} (h : IsPlainKey key) : IsPlain key.toList :=
  (isPlain_of_formOf h.form).2

theorem IsPlainKey.text {key : String} (h : IsPlainKey key) : keyText key = key := by
  have hbreak : key.toList.any isBreak = false :=
    List.any_eq_false.mpr fun c hc => Bool.eq_false_iff.mp (h.plain.printable c hc).2
  rw [keyText, hbreak, if_neg Bool.false_ne_true, h.form]

namespace Scan

variable {scan : Scan} {most column : Nat} {ahead : List Char} {indents : List Nat}
  {tokens : List Token}

/-! ## Scalars -/

variable {index line indent width : Nat} {allowsKey : Bool}

/-- A word without quotes takes one step. -/
theorem reaches_word {word : String} (hword : IsPlain word.toList)
    (hindent : indents.head? = some indent) (hcolumn : indent < column) (hwidth : width ≤ indent)
    (hahead : IsAhead ahead) :
    (place (' ' :: (word.toList ++ '\n' :: (margin width ++ ahead))) index line column indents none
        allowsKey tokens).Reaches 1 width ahead indents (tokens ++ [.scalar .plain word]) := by
  have hrun : (place _ index line column indents none allowsKey tokens).Reaches _ _ _ _ _ :=
    reaches_plain hword hindent hcolumn hwidth hahead
  rwa [String.ofList_toList] at hrun

/-- **A text of one line** takes one step. -/
theorem reaches_text {text : String} (hline : '\n' ∉ text.toList)
    (hindent : indents.head? = some indent) (hcolumn : indent < column) (hwidth : width ≤ indent)
    (hahead : IsAhead ahead) :
    (place (' ' :: ((textText (indent + 2) text).toList ++ (margin width ++ ahead))) index line column
        indents none allowsKey tokens).Reaches 1 width ahead indents (tokens ++ [textToken text]) := by
  -- both kinds of quotes enclose a body that is read back
  have hquoted : ∀ {quote : Char} {body : List Char}, (quote = '\'' ∨ quote = '"') →
      (∀ scan : Scan, scan.fetch? quote (body ++ quote :: '\n' :: (margin width ++ ahead))
        = scan.word? (.scalar .quoted text) ('\n' :: (margin width ++ ahead))) →
      (place (' ' :: ((String.ofList (quote :: body ++ [quote]) ++ "\n").toList ++ (margin width ++ ahead)))
          index line column indents none allowsKey tokens).Reaches 1 width ahead indents
        (tokens ++ [.scalar .quoted text]) := by
    intro quote body hquote hfetch
    have htext : (String.ofList (quote :: body ++ [quote]) ++ "\n").toList ++ (margin width ++ ahead)
        = quote :: ((body ++ [quote]) ++ '\n' :: (margin width ++ ahead)) := by simp
    rw [htext]
    refine reaches_quoted hquote (fun scan => ?_) hindent hcolumn hahead
    rw [List.append_assoc, List.singleton_append, hfetch]
  rcases formOf_cases hline with hform | ⟨hform, hsingle⟩ | hform
  · have htext : (textText (indent + 2) text).toList ++ (margin width ++ ahead)
        = text.toList ++ '\n' :: (margin width ++ ahead) := by
      rw [textText, hform]
      simp
    rw [htext, textToken, if_pos hform]
    exact reaches_word (isPlain_of_formOf hform).2 hindent hcolumn hwidth hahead
  · rw [textText, hform, textToken, if_neg (by rw [hform]; decide)]
    refine hquoted (Or.inl rfl) fun scan => ?_
    rw [fetch?_singleQuote, singleText?_singleQuoted (indent + 1) hsingle (by simp), String.ofList_toList]
    rfl
  · rw [textText, hform, textToken, if_neg (by rw [hform]; decide)]
    refine hquoted (Or.inr rfl) fun scan => ?_
    rw [fetch?_doubleQuote, doubleText?_doubleQuoted, String.ofList_toList]
    rfl

/-! ## Values -/

/-- **A value is scanned where it stands**: after the colon of an entry, or right after the dash of an
    item. The scan ends before what comes next, at a column that is not inside of the table around
    the value. -/
def IsScanned (value : Value) : Prop :=
  ∀ ⦃isItem : Bool⦄ ⦃indent index line column width : Nat⦄ ⦃ahead : List Char⦄ ⦃indents : List Nat⦄
    ⦃tokens : List Token⦄, indents.head? = some indent → indent < column →
    (isItem = true → column = indent + 1 ∧ ∀ items, value ≠ .list items) → width ≤ indent →
    IsAhead ahead →
    (place ((valueText isItem indent value).toList ++ (margin width ++ ahead)) index line column indents
        none isItem tokens).Reaches (valueText isItem indent value).toList.length width ahead indents
      (tokens ++ valueTokens value)

theorem endsWord_valueText (isItem : Bool) (indent : Nat) (value : Value) (after : List Char) :
    endsWord ((valueText isItem indent value).toList ++ after) = true := by
  have hfirst : ∃ c rest, (valueText isItem indent value).toList = c :: rest ∧ (c = ' ' ∨ c = '\n') := by
    unfold valueText
    split
    all_goals try split
    all_goals simp
  obtain ⟨c, rest, htext, hc⟩ := hfirst
  rw [htext]
  rcases hc with rfl | rfl <;> rfl

/-- The characters of the entries of a table at a column. -/
def entriesChars (column : Nat) (entries : List (String × Value)) : List Char :=
  ((marginText column).intercalate (entryTexts column entries)).toList

/-- The characters of the items of a list at a column. -/
def itemsChars (column : Nat) (items : List Value) : List Char :=
  ((marginText column).intercalate (itemTexts column items)).toList

theorem entriesChars_singleton (column : Nat) {key : String} (hkey : keyText key = key) (value : Value) :
    entriesChars column [(key, value)] = key.toList ++ ':' :: (valueText false column value).toList := by
  rw [entriesChars, entryTexts, entryTexts, String.intercalate_singleton, hkey, String.toList_append,
    String.toList_append, List.append_assoc]
  rfl

theorem entriesChars_cons (column : Nat) {key : String} (hkey : keyText key = key) (value : Value)
    {entries : List (String × Value)} (hne : entries ≠ []) :
    entriesChars column ((key, value) :: entries)
      = key.toList ++ ':' :: ((valueText false column value).toList
          ++ (margin column ++ entriesChars column entries)) := by
  have hne' : entryTexts column entries ≠ [] := by
    cases entries with
    | nil => exact absurd rfl hne
    | cons entry entries =>
        rw [entryTexts]
        exact List.cons_ne_nil _ _
  rw [entriesChars, entryTexts, String.intercalate_cons_of_ne_nil hne', hkey, marginText]
  simp only [String.toList_append, List.append_assoc, String.toList_ofList]
  rfl

theorem itemsChars_singleton (column : Nat) (item : Value) :
    itemsChars column [item] = '-' :: (valueText true column item).toList := by
  rw [itemsChars, itemTexts, itemTexts, String.intercalate_singleton, String.toList_append]
  rfl

theorem itemsChars_cons (column : Nat) (item : Value) {items : List Value} (hne : items ≠ []) :
    itemsChars column (item :: items)
      = '-' :: ((valueText true column item).toList ++ (margin column ++ itemsChars column items)) := by
  have hne' : itemTexts column items ≠ [] := by
    cases items with
    | nil => exact absurd rfl hne
    | cons item items =>
        rw [itemTexts]
        exact List.cons_ne_nil _ _
  rw [itemsChars, itemTexts, String.intercalate_cons_of_ne_nil hne', marginText]
  simp only [String.toList_append, List.append_assoc, String.toList_ofList]
  rfl

theorem isAhead_entriesChars (column : Nat) {entries : List (String × Value)} (hne : entries ≠ [])
    (hkeys : ∀ entry ∈ entries, IsPlainKey entry.1) (rest : List Char) :
    IsAhead (entriesChars column entries ++ rest) := by
  cases entries with
  | nil => exact absurd rfl hne
  | cons entry entries =>
      obtain ⟨key, value⟩ := entry
      have hkey := hkeys (key, value) List.mem_cons_self
      cases entries with
      | nil =>
          rw [entriesChars_singleton column hkey.text, List.append_assoc]
          exact isAhead_plain hkey.plain _
      | cons next entries =>
          rw [entriesChars_cons column hkey.text value (List.cons_ne_nil _ _), List.append_assoc]
          exact isAhead_plain hkey.plain _

theorem isAhead_itemsChars (column : Nat) {items : List Value} (hne : items ≠ []) (rest : List Char) :
    IsAhead (itemsChars column items ++ rest) := by
  cases items with
  | nil => exact absurd rfl hne
  | cons item items =>
      cases items with
      | nil =>
          rw [itemsChars_singleton]
          exact isAhead_cons (by decide) (by decide) (by decide) _
      | cons next items =>
          rw [itemsChars_cons column item (List.cons_ne_nil _ _)]
          exact isAhead_cons (by decide) (by decide) (by decide) _

theorem head?_opened (column : Nat) (indents : List Nat) :
    (opened column indents).head? = some column := by
  unfold opened
  split
  · assumption
  · rfl

/-- The table at a column is opened once. -/
theorem opened_opened (column : Nat) (indents : List Nat) :
    opened column (opened column indents) = opened column indents ∧
      opening column (opened column indents) = [] :=
  ⟨if_pos (head?_opened column indents), if_pos (head?_opened column indents)⟩

/-- **An entry.** The table around it is open behind it. -/
theorem reaches_entry {key : String} {value : Value} (hkey : IsPlainKey key) (hvalue : IsScanned value)
    (hindents : ∀ indent, indents.head? = some indent → indent ≤ column) (hwidth : width ≤ column)
    (hahead : IsAhead ahead)
    (h : scan.Stands column (key.toList
      ++ ':' :: ((valueText false column value).toList ++ (margin width ++ ahead))) indents tokens) :
    scan.Reaches (key.toList ++ ':' :: (valueText false column value).toList).length width ahead
      (opened column indents)
      (tokens ++ opening column indents
        ++ .key :: .scalar .plain key :: .value :: valueTokens value) := by
  obtain ⟨index, line, hrun⟩ := tokensWithin?_key hkey.plain hkey.length
    (endsWord_valueText false column value _) h hindents
  have hdeep : column < column + key.toList.length + 1 := by omega
  have hafter := (hvalue (head?_opened column indents) hdeep
    (fun he : false = true => absurd he Bool.false_ne_true) hwidth hahead).after hrun
  rw [List.append_assoc, String.ofList_toList] at hafter
  have hpos : 0 < key.toList.length := List.length_pos_iff.mpr hkey.plain.ne_nil
  refine hafter.mono ?_
  rw [List.length_append, List.length_cons]
  omega

/-- **The entries of a table**, from the first key on. -/
theorem reaches_entries {entries : List (String × Value)} (hne : entries ≠ [])
    (hkeys : ∀ entry ∈ entries, IsPlainKey entry.1) (hvalues : ∀ entry ∈ entries, IsScanned entry.2)
    (hindents : ∀ indent, indents.head? = some indent → indent ≤ column) (hwidth : width ≤ column)
    (hahead : IsAhead ahead)
    (h : scan.Stands column (entriesChars column entries ++ (margin width ++ ahead)) indents tokens) :
    scan.Reaches (entriesChars column entries).length width ahead (opened column indents)
      (tokens ++ opening column indents ++ entriesTokens entries) := by
  induction entries generalizing scan indents tokens with
  | nil => exact absurd rfl hne
  | cons entry entries ih =>
      obtain ⟨key, value⟩ := entry
      have hkey := hkeys (key, value) List.mem_cons_self
      have hvalue := hvalues (key, value) List.mem_cons_self
      cases entries with
      | nil =>
          rw [entriesChars_singleton column hkey.text, List.append_assoc] at h
          rw [entriesChars_singleton column hkey.text, entriesTokens, entriesTokens, List.append_nil]
          exact reaches_entry hkey hvalue hindents hwidth hahead h
      | cons next entries =>
          have hrest := isAhead_entriesChars column (List.cons_ne_nil next entries)
            (fun entry hentry => hkeys entry (List.mem_cons_of_mem _ hentry)) (margin width ++ ahead)
          rw [entriesChars_cons column hkey.text value (List.cons_ne_nil _ _)] at h ⊢
          simp only [List.append_assoc, List.cons_append] at h
          have hfirst := reaches_entry hkey hvalue hindents (Nat.le_refl column) hrest h
          have hwhole := hfirst.trans fun scan hscan =>
            ih (List.cons_ne_nil _ _) (fun entry hentry => hkeys entry (List.mem_cons_of_mem _ hentry))
              (fun entry hentry => hvalues entry (List.mem_cons_of_mem _ hentry))
              (fun indent hindent => Nat.le_of_eq
                (Option.some.inj (hindent.symm.trans (head?_opened column indents)))) hscan
          rw [(opened_opened column indents).1, (opened_opened column indents).2, List.append_nil,
            List.append_assoc] at hwhole
          rw [entriesTokens]
          refine hwhole.mono ?_
          simp only [List.length_append, List.length_cons]
          omega

/-- **An item** of a list whose dashes stand at the column of the table around it. -/
theorem reaches_item {item : Value} (hitem : IsScanned item) (hlist : ∀ items, item ≠ .list items)
    (hindents : indents.head? = some column) (hwidth : width ≤ column) (hahead : IsAhead ahead)
    (h : scan.Stands column ('-' :: ((valueText true column item).toList ++ (margin width ++ ahead)))
      indents tokens) :
    scan.Reaches ('-' :: (valueText true column item).toList).length width ahead indents
      (tokens ++ .dash :: valueTokens item) := by
  obtain ⟨index, line, hrun⟩ := tokensWithin?_dash (endsWord_valueText true column item _) h hindents
  have hafter := (hitem hindents (Nat.lt_succ_self column) (fun _ : true = true => ⟨rfl, hlist⟩) hwidth
    hahead).after hrun
  rw [List.append_assoc] at hafter
  refine hafter.mono ?_
  rw [List.length_cons]
  omega

/-- **The items of a list.** -/
theorem reaches_items {items : List Value} (hne : items ≠ []) (hitems : ∀ item ∈ items, IsScanned item)
    (hlist : ∀ item ∈ items, ∀ inner, item ≠ .list inner) (hindents : indents.head? = some column)
    (hwidth : width ≤ column) (hahead : IsAhead ahead)
    (h : scan.Stands column (itemsChars column items ++ (margin width ++ ahead)) indents tokens) :
    scan.Reaches (itemsChars column items).length width ahead indents (tokens ++ itemsTokens items) := by
  induction items generalizing scan tokens with
  | nil => exact absurd rfl hne
  | cons item items ih =>
      have hitem := hitems item List.mem_cons_self
      have hinner := hlist item List.mem_cons_self
      cases items with
      | nil =>
          rw [itemsChars_singleton] at h
          rw [itemsChars_singleton, itemsTokens, itemsTokens, List.append_nil]
          exact reaches_item hitem hinner hindents hwidth hahead h
      | cons next items =>
          have hrest := isAhead_itemsChars column (List.cons_ne_nil next items) (margin width ++ ahead)
          rw [itemsChars_cons column item (List.cons_ne_nil _ _)] at h ⊢
          simp only [List.append_assoc, List.cons_append] at h
          have hfirst := reaches_item hitem hinner hindents (Nat.le_refl column) hrest h
          have hwhole := hfirst.trans fun scan hscan =>
            ih (List.cons_ne_nil _ _) (fun item hitem => hitems item (List.mem_cons_of_mem _ hitem))
              (fun item hitem => hlist item (List.mem_cons_of_mem _ hitem)) hscan
          rw [List.append_assoc] at hwhole
          rw [itemsTokens]
          refine hwhole.mono ?_
          simp only [List.length_append, List.length_cons]
          omega

end Scan

/-! ## Trees -/

open Scan in
/-- **Every tree in block style is scanned where it stands.** -/
theorem IsBlock.isScanned {value : Value} (h : IsBlock value) : IsScanned value := by
  induction h with
  | bool value =>
      intro isItem indent index line column width ahead indents tokens hhead hdeep _ hwidth hahead
      have hword : IsPlain (if value then "true" else "false").toList := by
        cases value <;> exact isPlain_of_fitsPlain (by decide) (by decide)
      have htext : (valueText isItem indent (.bool value)).toList
          = ' ' :: ((if value then "true" else "false").toList ++ ['\n']) := by
        cases value <;> rw [valueText] <;> rfl
      rw [htext, valueTokens, List.cons_append, List.append_assoc]
      exact (reaches_word hword hhead hdeep hwidth hahead).mono (Nat.succ_pos _)
  | text hline =>
      intro isItem indent index line column width ahead indents tokens hhead hdeep _ hwidth hahead
      rw [valueText, valueTokens, String.toList_append]
      exact (reaches_text hline hhead hdeep hwidth hahead).mono (Nat.succ_pos _)
  | @list items hlist hitems ih =>
      intro isItem indent index line column width ahead indents tokens hhead hdeep hitem hwidth hahead
      have hentry : isItem = false := by
        rw [Bool.eq_false_iff]
        exact fun he => (hitem he).2 items rfl
      subst hentry
      cases items with
      | nil =>
          rw [valueText, valueTokens]
          exact (reaches_brackets .list hhead hdeep hahead).mono (by decide)
      | cons item items =>
          have hne : item :: items ≠ [] := List.cons_ne_nil item items
          have htext : (valueText false indent (.list (item :: items))).toList
              = '\n' :: (margin indent ++ itemsChars indent (item :: items)) := by
            rw [valueText, if_neg Bool.false_ne_true]
            · simp [itemsChars, marginText]
            · exact hne
          have hstands : (place ('\n' :: (margin indent ++ (itemsChars indent (item :: items)
              ++ (margin width ++ ahead)))) index line column indents none false tokens).Stands indent
              (itemsChars indent (item :: items) ++ (margin width ++ ahead)) indents tokens :=
            stands_of_line (isAhead_itemsChars indent hne _) fun _ hc => nomatch hc
          have hrun := reaches_items hne ih hlist hhead hwidth hahead hstands
          rw [htext, valueTokens, List.cons_append, List.append_assoc]
          · refine hrun.mono ?_
            rw [List.length_cons, List.length_append]
            omega
          · exact hne
  | @table entries hkeys hentries ih =>
      intro isItem indent index line column width ahead indents tokens hhead hdeep hitem hwidth hahead
      cases entries with
      | nil =>
          rw [valueText, valueTokens]
          exact (reaches_brackets .table hhead hdeep hahead).mono (by decide)
      | cons entry entries =>
          have hne : entry :: entries ≠ [] := List.cons_ne_nil entry entries
          have hrest := isAhead_entriesChars (indent + 2) hne hkeys (margin width ++ ahead)
          -- the first key stands two columns deeper than the table around, on a line of its own or not
          have hstands : (place ((valueText isItem indent (.table (entry :: entries))).toList
              ++ (margin width ++ ahead)) index line column indents none isItem tokens).Stands (indent + 2)
              (entriesChars (indent + 2) (entry :: entries) ++ (margin width ++ ahead)) indents tokens ∧
              (entriesChars (indent + 2) (entry :: entries)).length
                ≤ (valueText isItem indent (.table (entry :: entries))).toList.length := by
            cases isItem with
            | false =>
                have htext : (valueText false indent (.table (entry :: entries))).toList
                    = '\n' :: (margin (indent + 2) ++ entriesChars (indent + 2) (entry :: entries)) := by
                  rw [valueText, if_neg Bool.false_ne_true]
                  · simp [entriesChars, marginText]
                  · exact hne
                rw [htext, List.cons_append, List.append_assoc, List.length_cons, List.length_append]
                exact ⟨stands_of_line hrest fun _ hc => (nomatch hc), by omega⟩
            | true =>
                have htext : (valueText true indent (.table (entry :: entries))).toList
                    = margin 1 ++ entriesChars (indent + 2) (entry :: entries) := by
                  rw [valueText, if_pos rfl]
                  · simp [entriesChars, marginText, margin]
                  · exact hne
                rw [htext, List.append_assoc, (hitem rfl).1, List.length_append]
                exact ⟨stands_of_margin 1 hrest, Nat.le_add_left _ _⟩
          have hhead_ne : indents.head? ≠ some (indent + 2) := by
            rw [hhead, Ne, Option.some.injEq]
            omega
          have hrun := reaches_entries hne hkeys ih
            (fun other hother => Nat.le_add_right_of_le
              (Nat.le_of_eq (Option.some.inj (hother.symm.trans hhead))))
            (Nat.le_add_right_of_le hwidth) hahead hstands.1
          rw [opened, if_neg hhead_ne, opening, if_neg hhead_ne] at hrun
          have hclosed := hrun.close (show width < indent + 2 by omega)
          rw [valueTokens]
          · rw [List.append_assoc, List.append_assoc] at hclosed
            exact hclosed.mono hstands.2
          · exact hne

/-! ## Characters -/

theorem isPrintable_hexDigit : ∀ n < 16, isPrintable (Digits.hexDigit 'A' n) = true := by
  decide

theorem isPrintable_hex (width n : Nat) : ∀ c ∈ Digits.hex 'A' width n, isPrintable c = true := by
  induction width generalizing n with
  | zero => exact fun _ hc => nomatch hc
  | succ width ih =>
      intro c hc
      rcases List.mem_append.mp hc with hc | hc
      · exact ih (n / 16) c hc
      · rw [List.mem_singleton.mp hc]
        exact isPrintable_hexDigit _ (Nat.mod_lt n (by decide))

theorem isPrintable_escapeChar (c : Char) : ∀ d ∈ escapeChar c, isPrintable d = true := by
  have hletter : ∀ letter, escapeLetter? c = some letter → isPrintable letter = true := by
    intro letter hc
    unfold escapeLetter? at hc
    split at hc
    case h_15 => exact nomatch hc
    all_goals
      rw [← Option.some.inj hc]
      decide
  unfold escapeChar
  split
  · next letter hc =>
      simpa using ⟨by decide, hletter letter hc⟩
  · split
    · next hc => simpa using hc
    · split <;> simpa using ⟨by decide, by decide, isPrintable_hex _ _⟩

theorem isPrintable_margin (indent : Nat) : ∀ c ∈ margin indent, isPrintable c = true := fun c hc => by
  rw [List.eq_of_mem_replicate hc]
  decide

/-- Single quotes add blanks and quotes only. -/
theorem isPrintable_singleBody (indent : Nat) {text : List Char} (h : ∀ c ∈ text, isPrintable c = true) :
    ∀ c ∈ singleBody indent text, isPrintable c = true := by
  fun_induction singleBody indent text with
  | case2 c hc =>
      exact List.forall_mem_cons.mpr ⟨(List.forall_mem_cons.mp h).1, isPrintable_margin indent⟩
  | case4 c hc d rest hd ih =>   -- a line end before a word has the margin behind it
      obtain ⟨hfirst, hrest⟩ := List.forall_mem_cons.mp h
      exact List.forall_mem_append.mpr
        ⟨List.forall_mem_cons.mpr ⟨hfirst, isPrintable_margin indent⟩, ih hrest⟩
  | _ => simp_all

/-- **Only printable characters are written.** -/
theorem isPrintable_textText (indent : Nat) {text : String} (hline : '\n' ∉ text.toList) :
    ∀ c ∈ (textText indent text).toList, isPrintable c = true := by
  have hend : ∀ {chars : List Char}, (∀ c ∈ chars, isPrintable c = true) →
      ∀ c ∈ chars ++ ['\n'], isPrintable c = true := by
    intro chars h c hc
    rcases List.mem_append.mp hc with hc | hc
    · exact h c hc
    · rw [List.mem_singleton.mp hc]
      decide
  rcases formOf_cases hline with hform | ⟨hform, hsingle⟩ | hform
  · rw [textText, hform, String.toList_append]
    exact hend fun c hc => ((isPlain_of_formOf hform).2.printable c hc).1
  · rw [textText, hform, String.toList_append, String.toList_ofList, singleQuoted]
    refine hend (List.forall_mem_append.mpr
      ⟨List.forall_mem_cons.mpr ⟨by decide, ?_⟩, List.forall_mem_singleton.mpr (by decide)⟩)
    exact isPrintable_singleBody indent fun c hc => (hsingle.printable c hc).1
  · rw [textText, hform, String.toList_append, String.toList_ofList, doubleQuoted]
    refine hend (List.forall_mem_append.mpr
      ⟨List.forall_mem_cons.mpr ⟨by decide, ?_⟩, List.forall_mem_singleton.mpr (by decide)⟩)
    intro c hc
    obtain ⟨d, -, hd⟩ := List.mem_flatMap.mp hc
    exact isPrintable_escapeChar d c hd

theorem entryTexts_eq_map (indent : Nat) (entries : List (String × Value)) :
    entryTexts indent entries
      = entries.map fun entry => keyText entry.1 ++ ":" ++ valueText false indent entry.2 := by
  induction entries with
  | nil => rw [entryTexts, List.map_nil]
  | cons entry entries ih =>
      obtain ⟨key, value⟩ := entry
      rw [entryTexts, ih, List.map_cons]

theorem itemTexts_eq_map (indent : Nat) (items : List Value) :
    itemTexts indent items = items.map fun item => "-" ++ valueText true indent item := by
  induction items with
  | nil => rw [itemTexts, List.map_nil]
  | cons item items ih => rw [itemTexts, ih, List.map_cons]

theorem isPrintable_marginText (indent : Nat) : ∀ c ∈ (marginText indent).toList, isPrintable c = true := by
  rw [marginText, String.toList_ofList]
  exact isPrintable_margin indent

/-- Whether a value is written with printable characters only. -/
def IsPrinted (value : Value) : Prop :=
  ∀ isItem indent, ∀ c ∈ (valueText isItem indent value).toList, isPrintable c = true

theorem isPrintable_itemsChars (column : Nat) {items : List Value}
    (h : ∀ item ∈ items, IsPrinted item) : ∀ c ∈ Scan.itemsChars column items, isPrintable c = true := by
  rw [Scan.itemsChars, String.toList_intercalate, itemTexts_eq_map]
  refine Text.forall_mem_intercalate (isPrintable_marginText column) ?_
  simp only [List.forall_mem_map, String.toList_append]
  exact fun item hitem => List.forall_mem_append.mpr ⟨List.all_eq_true.mp (by decide), h item hitem true column⟩

theorem isPrintable_entriesChars (column : Nat) {entries : List (String × Value)}
    (hkeys : ∀ entry ∈ entries, IsPlainKey entry.1) (h : ∀ entry ∈ entries, IsPrinted entry.2) :
    ∀ c ∈ Scan.entriesChars column entries, isPrintable c = true := by
  rw [Scan.entriesChars, String.toList_intercalate, entryTexts_eq_map]
  refine Text.forall_mem_intercalate (isPrintable_marginText column) ?_
  simp only [List.forall_mem_map, String.toList_append]
  intro entry hentry
  have hkey := hkeys entry hentry
  rw [hkey.text]
  exact List.forall_mem_append.mpr ⟨List.forall_mem_append.mpr
    ⟨fun c hc => (hkey.plain.printable c hc).1, List.all_eq_true.mp (by decide)⟩,
      h entry hentry false column⟩

/-- A tree in block style is written with printable characters. -/
theorem IsBlock.isPrinted {value : Value} (h : IsBlock value) : IsPrinted value := by
  induction h with
  | bool value =>
      intro isItem indent
      cases value <;> rw [valueText] <;> exact List.all_eq_true.mp (by decide)
  | text hline =>
      intro isItem indent
      rw [valueText, String.toList_append]
      exact List.forall_mem_append.mpr
        ⟨List.all_eq_true.mp (by decide), isPrintable_textText _ hline⟩
  | @list items hlist hitems ih =>
      intro isItem indent
      cases items with
      | nil =>
          rw [valueText]
          exact List.all_eq_true.mp (by decide)
      | cons item items =>
          rw [valueText]
          · split
            · rw [String.toList_append]
              exact List.forall_mem_append.mpr
                ⟨List.all_eq_true.mp (by decide), isPrintable_itemsChars _ ih⟩
            · rw [String.toList_append, String.toList_append]
              exact List.forall_mem_append.mpr
                ⟨List.forall_mem_append.mpr ⟨List.all_eq_true.mp (by decide), isPrintable_marginText _⟩,
                  isPrintable_itemsChars _ ih⟩
          · exact List.cons_ne_nil item items
  | @table entries hkeys hentries ih =>
      intro isItem indent
      cases entries with
      | nil =>
          rw [valueText]
          exact List.all_eq_true.mp (by decide)
      | cons entry entries =>
          rw [valueText]
          · rw [String.toList_append]
            refine List.forall_mem_append.mpr ⟨?_, isPrintable_entriesChars _ hkeys ih⟩
            split
            · exact List.all_eq_true.mp (by decide)
            · rw [String.toList_append]
              exact List.forall_mem_append.mpr
                ⟨List.all_eq_true.mp (by decide), isPrintable_marginText _⟩
          · exact List.cons_ne_nil entry entries

/-! ## Texts -/

theorem isAllowed_of_isPrintable {c : Char} (h : isPrintable c = true) : isAllowed c = true := by
  unfold isAllowed
  rw [h]
  rfl

theorem isAhead_nil : IsAhead [] := fun _ hc => nomatch hc

theorem entriesChars_eq_join (entries : List (String × Value)) :
    (String.join (entryTexts 0 entries)).toList = Scan.entriesChars 0 entries := by
  rw [Scan.entriesChars, String.toList_join, String.toList_intercalate, marginText, String.toList_ofList]
  induction entryTexts 0 entries with
  | nil => rfl
  | cons text texts ih =>
      cases texts with
      | nil => simp
      | cons next texts =>
          rw [List.flatMap_cons, ih]
          rfl

/-- **The tokens of a written table.** -/
theorem tokens?_write {entries : List (String × Value)} (hne : entries ≠ [])
    (h : IsBlock (.table entries)) :
    tokens? (write (.table entries)).toList = some (valueTokens (.table entries)) := by
  obtain ⟨entry, rest, rfl⟩ := List.exists_cons_of_ne_nil hne
  have htext : (write (.table (entry :: rest))).toList = Scan.entriesChars 0 (entry :: rest) :=
    entriesChars_eq_join _
  cases h with
  | table hkeys hentries =>
      have hprintable : ∀ c ∈ Scan.entriesChars 0 (entry :: rest), isPrintable c = true :=
        isPrintable_entriesChars 0 hkeys fun entry hentry => (hentries entry hentry).isPrinted
      have hstands : (Scan.place (Scan.entriesChars 0 (entry :: rest) ++ (margin 0 ++ [])) 0 0 0 [] none
          true []).Stands 0 (Scan.entriesChars 0 (entry :: rest) ++ (margin 0 ++ [])) [] [] :=
        Scan.stands_of_ahead (Scan.isAhead_entriesChars 0 hne hkeys _) fun _ hc => nomatch hc
      have hindents : ∀ indent, ([] : List Nat).head? = some indent → indent ≤ 0 :=
        fun _ hindent => nomatch hindent
      obtain ⟨steps, next, hsteps, hrun, hlast⟩ := Scan.reaches_entries hne hkeys
        (fun entry hentry => (hentries entry hentry).isScanned) hindents (Nat.le_refl 0) isAhead_nil hstands
      have htokens : (Scan.place (Scan.entriesChars 0 (entry :: rest)) 0 0 0 [] none true []).tokensWithin?
          ((Scan.entriesChars 0 (entry :: rest)).length + 1) = some (valueTokens (.table (entry :: rest))) := by
        have hsplit : (Scan.entriesChars 0 (entry :: rest)).length + 1
            = (Scan.entriesChars 0 (entry :: rest)).length - steps + 1 + steps := by omega
        rw [List.append_nil, margin, List.replicate_zero, List.append_nil] at hrun
        rw [hsplit, hrun, Scan.tokensWithin?_of_stands_nil hlast, valueTokens]
        · rfl
        · exact hne
      have hallowed : (Scan.entriesChars 0 (entry :: rest)).all isAllowed = true :=
        List.all_eq_true.mpr fun c hc => isAllowed_of_isPrintable (hprintable c hc)
      rw [htext, tokens?, hallowed, if_neg (by decide)]
      · exact htokens
      · intro after he   -- a byte order mark is not printable
        rw [he] at hprintable
        exact absurd (hprintable _ List.mem_cons_self) (by decide)

end SchemaForge.Document.Yaml
