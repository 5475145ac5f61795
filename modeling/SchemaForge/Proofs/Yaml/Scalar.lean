import SchemaForge.Document.Yaml.Plain
import SchemaForge.Document.Yaml.Writer
import SchemaForge.Proofs.Text.Run

/-!
# `Proofs.Yaml.Scalar` — a written YAML text is read back

A text without line feeds takes one of three forms, and each is read back as the text: without
quotes, where the end of the line ends it, in single quotes, where separators of lines may stand with
a margin after them, and in double quotes, where everything else is escaped.

## Contents
- **Folding.** `foldFrom_line` and `foldFrom_pieces`.
- **No quotes.** `text?_line` and `text?_key`.
- **Single quotes.** `singleText?_singleQuoted`.
- **Double quotes.** `doubleText?_doubleQuoted`.
-/

namespace SchemaForge.Document.Yaml

open Text

/-! ## Characters -/

theorem isPrintable_ne {c d : Char} (h : isPrintable c = true) (hd : isPrintable d = false) : c ≠ d := by
  rintro rfl
  exact Bool.false_ne_true (hd.symm.trans h)

/-! ## Folding -/

/-- The pieces of a text within a line, with the characters that count as spaces. -/
def linePieces (isBlank : Char → Bool) (text : List Char) : List Piece :=
  text.map fun c => if isBlank c then .space c else .char c

theorem endsLine_linePieces (isBlank : Char → Bool) (text : List Char) :
    endsLine (linePieces isBlank text) = false := by
  induction text with
  | nil => rfl
  | cons c text ih =>
      unfold linePieces at ih ⊢
      rw [List.map_cons]
      split
      · rw [endsLine, ih]
      · rfl

/-- **Pieces within a line stand for their characters.** -/
theorem foldFrom_linePieces (isBlank : Char → Bool) (text : List Char) :
    foldFrom none (linePieces isBlank text) = text := by
  induction text with
  | nil => rfl
  | cons c text ih =>
      have hends := endsLine_linePieces isBlank text
      unfold linePieces at ih hends ⊢
      rw [List.map_cons]
      split
      · rw [foldFrom, hends, if_neg Bool.false_ne_true, ih]
      · rw [foldFrom, ih]

/-! ## No quotes -/

/-- A text that can stand without quotes. -/
structure IsPlain (text : List Char) : Prop where
  ne_nil : text ≠ []
  printable : ∀ c ∈ text, isPrintable c = true ∧ isBreak c = false
  outer : text.head? ≠ some ' ' ∧ text.getLast? ≠ some ' '
  start : startsWithIndicator text = false
  inner : holdsIndicator text = false

/-- Such a text starts with no character that marks something else. -/
theorem IsPlain.head {c : Char} {text : List Char} (h : IsPlain (c :: text)) :
    c ∉ indicators ∧ (c = '-' ∨ c = '?' ∨ c = ':' → endsWord text = false) ∧ isBreak c = false ∧
      isSpace c = false := by
  have hstart := h.start
  have hc := h.printable c List.mem_cons_self
  have hspace : isSpace c = false := by
    have htab := isPrintable_ne (d := '\t') hc.1 (by decide)
    have hblank : c ≠ ' ' := fun he => h.outer.1 (by rw [he]; rfl)
    simp [isSpace, htab, hblank]
  refine ⟨?_, ?_, hc.2, hspace⟩
  · intro hmem
    unfold startsWithIndicator at hstart
    split at hstart
    · exact nomatch hstart
    · exact nomatch hstart
    · next he =>
        obtain ⟨rfl, rfl⟩ := List.cons.inj he
        simp [hmem] at hstart
    · next he => exact nomatch he
  · intro hmark
    unfold startsWithIndicator at hstart
    split at hstart
    · exact nomatch hstart
    · exact nomatch hstart
    · next he =>
        obtain ⟨rfl, rfl⟩ := List.cons.inj he
        rw [Bool.or_eq_false_iff, Bool.and_eq_false_imp] at hstart
        exact hstart.2 (by simpa [or_assoc] using hmark)
    · next he => exact nomatch he

/-- Nor does it look like a mark between documents, whatever follows it but a dash or a point. -/
theorem IsPlain.startsMarker_eq_false {text : List Char} (h : IsPlain text) {after : List Char}
    (hafter : after.head? ≠ some '-' ∧ after.head? ≠ some '.') :
    startsMarker (text ++ after) = false := by
  have hmark : ∀ {mark : Char} {rest : List Char}, (mark = '-' ∨ mark = '.') →
      text ++ after ≠ mark :: mark :: mark :: rest := by
    intro mark rest hmark he
    have hother : after.head? ≠ some mark := by
      rcases hmark with rfl | rfl
      · exact hafter.1
      · exact hafter.2
    match text with
    | [] => exact h.ne_nil rfl
    | [_] => exact hother (congrArg List.head? (List.cons.inj he).2)
    | [_, _] => exact hother (congrArg List.head? (List.cons.inj (List.cons.inj he).2).2)
    | a :: b :: c :: tail =>
        obtain ⟨rfl, he⟩ := List.cons.inj he
        obtain ⟨rfl, he⟩ := List.cons.inj he
        obtain ⟨rfl, -⟩ := List.cons.inj he
        have hstart := h.start
        rcases hmark with rfl | rfl <;> exact nomatch hstart
  unfold startsMarker
  split
  · next he => exact absurd he (hmark (Or.inl rfl))
  · next he => exact absurd he (hmark (Or.inr rfl))
  · rfl

theorem isPlain_of_fitsPlain {text : List Char} (hne : text ≠ []) (h : fitsPlain text = true) :
    IsPlain text := by
  unfold fitsPlain isClean hasOuterBlank at h
  simp only [Bool.and_eq_true, Bool.not_eq_true', Bool.or_eq_false_iff, beq_eq_false_iff_ne,
    List.all_eq_true, List.any_eq_false] at h
  obtain ⟨⟨⟨⟨⟨hprintable, -⟩, hbreak⟩, houter⟩, hstart⟩, hinner⟩ := h
  exact
    { ne_nil := hne
      printable := fun c hc => ⟨hprintable c hc, by simpa using hbreak c hc⟩
      outer := houter
      start := hstart
      inner := hinner }

theorem isSpace_iff {c : Char} (h : isPrintable c = true) : isSpace c = true ↔ c = ' ' := by
  have htab := isPrintable_ne (d := '\t') h (by decide)
  simp [isSpace, htab]

/-- The blanks at the end of the pieces of a text are no part of it. -/
theorem fold_linePieces {text : List Char} (h : text.getLast? ≠ some ' ')
    (hprintable : ∀ c ∈ text, isPrintable c = true) {blanks : List Piece}
    (hblanks : ∀ piece ∈ blanks, piece.isBlank = true) :
    fold ((linePieces isSpace text ++ blanks).reverse.dropWhile Piece.isBlank).reverse
      = String.ofList text := by
  have hstop : (linePieces isSpace text).reverse.dropWhile Piece.isBlank = (linePieces isSpace text).reverse := by
    unfold linePieces
    rw [← List.map_reverse]
    cases hlast : text.reverse with
    | nil => rfl
    | cons c front =>
        have hmem : c ∈ text := List.mem_reverse.mp (hlast ▸ List.mem_cons_self)
        have hc : c ≠ ' ' := by
          rintro rfl
          exact h (by rw [List.getLast?_eq_head?_reverse, hlast]; rfl)
        have hnot : isSpace c = false :=
          Bool.eq_false_iff.mpr fun he => hc ((isSpace_iff (hprintable c hmem)).mp he)
        rw [List.map_cons, hnot, if_neg Bool.false_ne_true, List.dropWhile_cons_of_neg (by simp [Piece.isBlank])]
  rw [List.reverse_append, List.dropWhile_append_of_pos fun piece hpiece =>
    hblanks piece (List.mem_reverse.mp hpiece), hstop, List.reverse_reverse, fold, foldFrom_linePieces]

section Plain

variable {context : PlainContext} (hcontext : context.isInside = false)

theorem rest?_space (place : PlainPlace) (rest : List Char) :
    context.rest? place (' ' :: rest)
      = (context.rest? ⟨place.column + 1, true, place.isBroken⟩ rest).map (.add (.space ' ')) := by
  rw [PlainContext.rest?, if_neg (by decide), if_pos (by decide), if_neg (by simp)]
  exact fun _ h => absurd h (by decide)

include hcontext

/-- A character that neither starts a comment nor is a colon before a space belongs to the text. -/
theorem rest?_char {c : Char} (hc : isPrintable c = true ∧ isBreak c = false) (hspace : c ≠ ' ')
    {column : Nat} {isFresh : Bool} (hfresh : isFresh = true → 0 < column ∧ c ≠ '#')
    {rest : List Char} (hcolon : c = ':' → endsWord rest = false) :
    context.rest? ⟨column, isFresh, false⟩ (c :: rest)
      = (context.rest? ⟨column + 1, false, false⟩ rest).map (.add (.char c)) := by
  have hnot : isSpace c = false := Bool.eq_false_iff.mpr fun h => hspace ((isSpace_iff hc.1).mp h)
  have hword : (isFresh && context.endsAtWord ⟨column, isFresh, false⟩ (c :: rest)) = false := by
    cases isFresh with
    | false => rfl
    | true =>
        obtain ⟨hcolumn, hhash⟩ := hfresh rfl
        have hzero : column ≠ 0 := Nat.pos_iff_ne_zero.mp hcolumn
        simp [PlainContext.endsAtWord, hhash, hzero]
  have hchar : context.endsAtChar c rest = false := by
    unfold PlainContext.endsAtChar
    rw [hcontext, Bool.false_and, Bool.or_false, Bool.and_eq_false_imp]
    exact fun h => hcolon (beq_iff_eq.mp h)
  have hclash : context.isClash c rest = false := by
    unfold PlainContext.isClash
    rw [hcontext]
    rfl
  rw [PlainContext.rest?, if_neg (by simp [hc.2]), if_neg (by simp [hnot]), hword, hclash, hchar]
  · rfl
  · rintro _ rfl
    exact absurd hc.1 (by decide)

/-- **Nothing inside of a text ends it.** -/
theorem rest?_run {text : List Char} (hprintable : ∀ c ∈ text, isPrintable c = true ∧ isBreak c = false)
    (hinner : holdsIndicator text = false) {column : Nat} {isFresh : Bool}
    (hfresh : isFresh = true → 0 < column ∧ text.head? ≠ some '#') (rest : List Char) :
    ∃ isFresh', context.rest? ⟨column, isFresh, false⟩ (text ++ rest)
      = (context.rest? ⟨column + text.length, isFresh', false⟩ rest).map fun found =>
          { found with pieces := linePieces isSpace text ++ found.pieces } := by
  induction text generalizing column isFresh with
  | nil =>
      refine ⟨isFresh, ?_⟩
      rw [List.nil_append, List.length_nil, Nat.add_zero]
      cases context.rest? ⟨column, isFresh, false⟩ rest <;> rfl
  | cons c text ih =>
      have hc := hprintable c List.mem_cons_self
      have htext := fun d hd => hprintable d (List.mem_cons_of_mem c hd)
      -- the text goes on as it does after its first character
      have hnext : holdsIndicator text = false ∧ (c = ' ' → text.head? ≠ some '#') ∧
          (c = ':' → endsWord (text ++ rest) = false) := by
        cases text with
        | nil =>
            exact ⟨rfl, by simp, fun h => absurd h (by simpa [holdsIndicator] using hinner)⟩
        | cons d text =>
            rw [holdsIndicator, Bool.or_eq_false_iff, Bool.or_eq_false_iff] at hinner
            refine ⟨hinner.2, ?_, ?_⟩
            · rintro rfl
              simpa [isSpace] using hinner.1.2
            · rintro rfl
              simpa [endsWord] using hinner.1.1
      obtain ⟨htail, hhash, hcolon⟩ := hnext
      have hlength : column + (c :: text).length = column + 1 + text.length := by
        rw [List.length_cons]
        omega
      rw [List.cons_append, hlength]
      by_cases hspace : c = ' '
      · subst hspace
        obtain ⟨isFresh', hrest⟩ := @ih htext htail (column + 1) true
          fun _ => ⟨Nat.succ_pos _, hhash rfl⟩
        refine ⟨isFresh', ?_⟩
        rw [rest?_space, hrest, Option.map_map]
        rfl
      · obtain ⟨isFresh', hrest⟩ := @ih htext htail (column + 1) false
          fun h => absurd h Bool.false_ne_true
        refine ⟨isFresh', ?_⟩
        have hnot : isSpace c = false := Bool.eq_false_iff.mpr fun h => hspace ((isSpace_iff hc.1).mp h)
        rw [rest?_char hcontext hc hspace (fun h => ⟨(hfresh h).1, by simpa using (hfresh h).2⟩) hcolon,
          hrest, Option.map_map]
        unfold linePieces
        rw [List.map_cons, hnot]
        rfl

/-- A line with too little margin ends a text. -/
theorem rest?_margin {width : Nat} {ahead : List Char}
    (hahead : ∀ c, ahead.head? = some c → isSpace c = false ∧ isBreak c = false) {column : Nat}
    (hwidth : column + width < context.indent) :
    context.rest? ⟨column, true, true⟩ (margin width ++ ahead)
      = some ⟨List.replicate width (.space ' '), true, ahead⟩ := by
  induction width generalizing column with
  | zero =>
      cases ahead with
      | nil => rfl
      | cons c ahead =>
          obtain ⟨hspace, hbreak⟩ := hahead c rfl
          have hword : context.endsAtWord ⟨column, true, true⟩ (c :: ahead) = true := by
            have hlt : column < context.indent := hwidth
            simp [PlainContext.endsAtWord, hcontext, hlt]
          rw [margin, List.replicate_zero, List.nil_append, PlainContext.rest?,
            if_neg (by simp [hbreak]), if_neg (by simp [hspace]), hword]
          · rfl
          · rintro _ rfl
            exact absurd hbreak (by decide)
  | succ width ih =>
      have hmargin : margin (width + 1) ++ ahead = ' ' :: (margin width ++ ahead) := rfl
      have hnext : column + 1 + width < context.indent := by omega
      rw [hmargin, rest?_space, ih hnext]
      rfl

/-- **A text without quotes is read up to the end of its line**, and the margin of the next one. -/
theorem text?_line {text : List Char} (h : IsPlain text) (column : Nat) {width : Nat}
    {ahead : List Char} (hahead : ∀ c, ahead.head? = some c → isSpace c = false ∧ isBreak c = false)
    (hwidth : width < context.indent) :
    context.text? column (text ++ '\n' :: (margin width ++ ahead))
      = some (String.ofList text, true, ahead) := by
  have hfresh : false = true → 0 < column ∧ text.head? ≠ some '#' := fun he =>
    absurd he Bool.false_ne_true
  obtain ⟨isFresh, hrun⟩ := rest?_run hcontext h.printable h.inner hfresh
    ('\n' :: (margin width ++ ahead))
  have hline : context.rest? ⟨column + text.length, isFresh, false⟩ ('\n' :: (margin width ++ ahead))
      = some ⟨.lineEnd '\n' :: List.replicate width (.space ' '), true, ahead⟩ := by
    rw [PlainContext.rest?, if_pos (by decide), rest?_margin hcontext hahead (by omega)]
    · rfl
    · exact fun _ he => absurd he (by decide)
  have hblanks : ∀ piece ∈ Piece.lineEnd '\n' :: List.replicate width (.space ' '),
      piece.isBlank = true := by
    intro piece hpiece
    rcases List.mem_cons.mp hpiece with rfl | hpiece
    · rfl
    · rw [List.eq_of_mem_replicate hpiece]
      rfl
  unfold PlainContext.text?
  rw [hrun, hline, Option.map_some, Option.map_some]
  exact congrArg (fun read => some (read, true, ahead))
    (fold_linePieces h.outer.2 (fun c hc => (h.printable c hc).1) hblanks)

/-- **A key without quotes is read up to its colon.** -/
theorem text?_key {text : List Char} (h : IsPlain text) (column : Nat) {after : List Char}
    (hafter : endsWord after = true) :
    context.text? column (text ++ ':' :: after) = some (String.ofList text, false, ':' :: after) := by
  have hfresh : false = true → 0 < column ∧ text.head? ≠ some '#' := fun he =>
    absurd he Bool.false_ne_true
  obtain ⟨isFresh, hrun⟩ := rest?_run hcontext h.printable h.inner hfresh (':' :: after)
  have hcolon : context.rest? ⟨column + text.length, isFresh, false⟩ (':' :: after)
      = some ⟨[], false, ':' :: after⟩ := by
    have hword : context.endsAtWord ⟨column + text.length, isFresh, false⟩ (':' :: after) = false := by
      simp [PlainContext.endsAtWord, h.ne_nil]
    have hclash : context.isClash ':' after = false := by
      unfold PlainContext.isClash
      rw [hcontext]
      rfl
    have hchar : context.endsAtChar ':' after = true := by
      unfold PlainContext.endsAtChar
      rw [hafter]
      rfl
    rw [PlainContext.rest?, if_neg (by decide), if_neg (by decide), hword, Bool.and_false,
      if_neg Bool.false_ne_true, hclash, if_neg Bool.false_ne_true, hchar, if_pos rfl]
    exact fun _ he => absurd he (by decide)
  have hfold := fold_linePieces h.outer.2 (fun c hc => (h.printable c hc).1)
    (List.forall_mem_nil (Piece.isBlank · = true))
  unfold PlainContext.text?
  rw [hrun, hcolon, Option.map_some, Option.map_some]
  exact congrArg (fun read => some (read, false, ':' :: after)) hfold

end Plain

/-! ## Single quotes -/

/-- A text that can stand in single quotes: the line ends in it are separators, with no blank on
    either side. -/
structure IsSingle (text : List Char) : Prop where
  printable : ∀ c ∈ text, isPrintable c = true ∧ c ≠ '\n'
  before : holdsPair (· == ' ') isBreak text = false
  after : holdsPair isBreak (· == ' ') text = false

theorem isSingle_of_fitsSingleQuoted {text : List Char} (h : fitsSingleQuoted text = true)
    (hline : '\n' ∉ text) : IsSingle text := by
  unfold fitsSingleQuoted isClean at h
  simp only [Bool.and_eq_true, Bool.not_eq_true', List.all_eq_true] at h
  exact
    { printable := fun c hc => ⟨h.1.1 c hc, fun he => hline (he ▸ hc)⟩
      before := h.1.2
      after := h.2 }

theorem holdsPair_tail {first second : Char → Bool} {c : Char} {text : List Char}
    (h : holdsPair first second (c :: text) = false) : holdsPair first second text = false := by
  cases text with
  | nil => rfl
  | cons d text =>
      rw [holdsPair, Bool.or_eq_false_iff] at h
      exact h.2

/-- What follows a character of the first class. -/
theorem head?_of_holdsPair {first second : Char → Bool} {c : Char} {text : List Char}
    (h : holdsPair first second (c :: text) = false) (hc : first c = true) :
    ∀ d, text.head? = some d → second d = false := by
  intro d hd
  obtain ⟨tail, rfl⟩ := List.head?_eq_some_iff.mp hd
  rw [holdsPair, hc, Bool.true_and, Bool.or_eq_false_iff] at h
  exact h.1

theorem IsSingle.tail {c : Char} {text : List Char} (h : IsSingle (c :: text)) : IsSingle text where
  printable d hd := h.printable d (List.mem_cons_of_mem c hd)
  before := holdsPair_tail h.before
  after := holdsPair_tail h.after

/-- The line ends in such a text are kept as they are. -/
theorem lineEndOf_of_isPrintable {c : Char} (h : isPrintable c = true ∧ c ≠ '\n')
    (hbreak : isBreak c = true) : lineEndOf c = c ∧ c ≠ '\n' ∧ c ≠ '\r' := by
  refine ⟨?_, h.2, isPrintable_ne h.1 (by decide)⟩
  unfold isBreak at hbreak
  simp only [Bool.or_eq_true, beq_iff_eq] at hbreak
  rcases hbreak with (((rfl | rfl) | rfl) | rfl) | rfl
  · exact absurd rfl h.2
  · exact absurd h.1 (by decide)
  · exact absurd h.1 (by decide)
  · decide
  · decide

/-- The pieces of the inside of single quotes. -/
def singlePieces (indent : Nat) : List Char → List Piece
  | []        => []
  | c :: rest =>
    if isBreak c then
      .lineEnd c :: (if (rest.head?.map isBreak).getD false then []
        else List.replicate indent (.space ' ')) ++ singlePieces indent rest
    else pieceOf c :: singlePieces indent rest

/-- No line ends after blanks only. -/
theorem endsLine_singlePieces (indent : Nat) {text : List Char} (h : IsSingle text)
    (hhead : ∀ c, text.head? = some c → isBreak c = false) :
    endsLine (singlePieces indent text) = false := by
  induction text with
  | nil => rfl
  | cons c text ih =>
      have hbreak := hhead c rfl
      rw [singlePieces, hbreak, if_neg Bool.false_ne_true]
      unfold pieceOf
      rw [hbreak, if_neg Bool.false_ne_true]
      split
      · next hspace =>
          obtain rfl := (isSpace_iff (h.printable c List.mem_cons_self).1).mp hspace
          rw [endsLine]
          exact ih h.tail (head?_of_holdsPair h.before rfl)
      · rfl

/-- Blanks after a line end leave nothing. -/
theorem foldFrom_replicate (gap : Gap) (width : Nat) (pieces : List Piece) :
    foldFrom (some gap) (List.replicate width (.space ' ') ++ pieces) = foldFrom (some gap) pieces := by
  induction width with
  | zero => rfl
  | succ width ih => rw [List.replicate_succ, List.cons_append, foldFrom, ih]

/-- **The pieces inside of single quotes stand for the text**, also after separators. -/
theorem foldFrom_singlePieces (indent : Nat) {text : List Char} (h : IsSingle text) :
    foldFrom none (singlePieces indent text) = text ∧
      ∀ c others, c ≠ '\n' → text.head? ≠ some ' ' →
        foldFrom (some ⟨some c, others⟩) (singlePieces indent text) = c :: others ++ text := by
  have hgap : ∀ c others, c ≠ '\n' → Gap.text ⟨some c, others⟩ = c :: others := by
    intro c others hc
    unfold Gap.text
    split
    · next he => exact absurd he (by simp)
    · next he => exact absurd (Option.some.inj he) hc
    · next he => rw [Option.some.inj he]
  induction text with
  | nil =>
      refine ⟨rfl, fun c others hc _ => ?_⟩
      rw [singlePieces, foldFrom, hgap c others hc, List.append_nil]
  | cons c text ih =>
      obtain ⟨hnone, hsome⟩ := ih h.tail
      have hc := h.printable c List.mem_cons_self
      rw [singlePieces]
      cases hbreak : isBreak c with
      | true =>
          have hhead : text.head? ≠ some ' ' := fun he =>
            absurd (head?_of_holdsPair h.after hbreak ' ' he) (by decide)
          have hmargin : ∀ gap, foldFrom (some gap)
              ((if (text.head?.map isBreak).getD false then [] else List.replicate indent (.space ' '))
                ++ singlePieces indent text) = foldFrom (some gap) (singlePieces indent text) := by
            intro gap
            split
            · rfl
            · exact foldFrom_replicate gap indent _
          rw [if_pos rfl]
          refine ⟨?_, fun d others hd _ => ?_⟩
          · rw [List.cons_append, foldFrom, hmargin, hsome c [] hc.2 hhead]
            rfl
          · rw [List.cons_append, foldFrom, hmargin, hsome d (others ++ [c]) hd hhead]
            simp
      | false =>
          rw [if_neg Bool.false_ne_true]
          unfold pieceOf
          rw [hbreak, if_neg Bool.false_ne_true]
          cases hspace : isSpace c with
          | true =>
              obtain rfl := (isSpace_iff hc.1).mp hspace
              have hends := endsLine_singlePieces indent h.tail (head?_of_holdsPair h.before rfl)
              refine ⟨?_, fun d others hd hhead => absurd rfl hhead⟩
              rw [if_pos rfl, foldFrom, hends, if_neg Bool.false_ne_true, hnone]
          | false =>
              rw [if_neg Bool.false_ne_true]
              refine ⟨by rw [foldFrom, hnone], fun d others hd _ => ?_⟩
              rw [foldFrom, hgap d others hd, hnone]

/-- A character that is no quote and starts no mark between documents is read as its piece. -/
theorem singlePieces?_cons {c : Char} (hquote : c ≠ '\'') (hreturn : c ≠ '\r') {lineStart : Bool}
    {rest : List Char} (hmarker : lineStart = true → startsMarker (c :: rest) = false) :
    singlePieces? lineStart (c :: rest) = addPiece (pieceOf c) (singlePieces? (isBreak c) rest) := by
  have hmark : (lineStart && startsMarker (c :: rest)) = false := by
    cases lineStart with
    | false => rfl
    | true => exact hmarker rfl
  rw [singlePieces?, hmark, if_neg Bool.false_ne_true]
  · exact fun _ h => absurd h hquote
  · exact hquote
  · exact fun _ h => absurd h hreturn

theorem singlePieces?_margin (width : Nat) (rest : List Char) :
    singlePieces? false (margin width ++ rest)
      = (singlePieces? false rest).map fun (pieces, after) =>
          (List.replicate width (.space ' ') ++ pieces, after) := by
  induction width with
  | zero =>
      show singlePieces? false rest = _
      cases singlePieces? false rest <;> rfl
  | succ width ih =>
      have hmargin : margin (width + 1) ++ rest = ' ' :: (margin width ++ rest) := rfl
      have hspace : isBreak ' ' = false := by decide
      rw [hmargin, singlePieces?_cons (by decide) (by decide) (fun h => absurd h Bool.false_ne_true),
        hspace, ih]
      cases singlePieces? false rest <;> rfl

/-- What a margin stands for after a line end. -/
theorem singlePieces?_margin_succ (width : Nat) (rest : List Char) :
    singlePieces? true (margin (width + 1) ++ rest)
      = singlePieces? false (margin (width + 1) ++ rest) := by
  have hmargin : margin (width + 1) ++ rest = ' ' :: (margin width ++ rest) := rfl
  have hmarker : startsMarker (' ' :: (margin width ++ rest)) = false := by simp [startsMarker]
  rw [hmargin, singlePieces?_cons (by decide) (by decide) (fun _ => hmarker),
    singlePieces?_cons (by decide) (by decide) (fun _ => hmarker)]

/-- **The inside of single quotes is read piece by piece.** After a line end another one or a margin
    follows, so that no line looks like a mark between documents. -/
theorem singlePieces?_singleBody (width : Nat) {text : List Char} (h : IsSingle text)
    {rest : List Char} (hrest : rest.head? ≠ some '\'') {lineStart : Bool}
    (hstart : lineStart = true → ∃ c, text.head? = some c ∧ isBreak c = true) :
    singlePieces? lineStart (singleBody (width + 1) text ++ '\'' :: rest)
      = some (singlePieces (width + 1) text, rest) := by
  have hclose : ∀ lineStart, singlePieces? lineStart ('\'' :: rest) = some ([], rest) := by
    intro lineStart
    rw [singlePieces?]
    rintro after rfl
    exact hrest rfl
  induction text generalizing lineStart with
  | nil => exact hclose lineStart
  | cons c text ih =>
      have hc := h.printable c List.mem_cons_self
      have hreturn : c ≠ '\r' := isPrintable_ne hc.1 (by decide)
      cases hbreak : isBreak c with
      | true =>
          have hquote : c ≠ '\'' := by rintro rfl; exact absurd hbreak (by decide)
          have hpiece : pieceOf c = .lineEnd c := by
            rw [pieceOf, hbreak, if_pos rfl, (lineEndOf_of_isPrintable hc hbreak).1]
          have hmarker : ∀ after, startsMarker (c :: after) = false := by
            intro after
            unfold startsMarker
            split
            · next he => exact absurd ((List.cons.inj he).1 ▸ hbreak) (by decide)
            · next he => exact absurd ((List.cons.inj he).1 ▸ hbreak) (by decide)
            · rfl
          rw [singleBody.eq_def, singlePieces]
          dsimp only
          rw [hbreak, if_pos rfl, if_pos rfl]
          cases text with
          | nil =>
              have hmargin := singlePieces?_margin_succ width ('\'' :: rest)
              rw [singlePieces?_margin, hclose] at hmargin
              show singlePieces? lineStart (c :: (margin (width + 1) ++ '\'' :: rest)) = _
              rw [singlePieces?_cons hquote hreturn fun _ => hmarker _, hbreak, hmargin, hpiece]
              rfl
          | cons d text =>
              have hhead : ((d :: text).head?.map isBreak).getD false = isBreak d := rfl
              dsimp only
              cases hnext : isBreak d with
              | true =>
                  have hread := ih h.tail fun _ : true = true => ⟨d, rfl, hnext⟩
                  rw [if_pos rfl, List.cons_append,
                    singlePieces?_cons hquote hreturn fun _ => hmarker _, hbreak, hread, hpiece]
                  rw [hhead, hnext]
                  rfl
              | false =>
                  have hread := ih h.tail fun he : false = true => absurd he Bool.false_ne_true
                  have hmargin := singlePieces?_margin_succ width
                    (singleBody (width + 1) (d :: text) ++ '\'' :: rest)
                  rw [singlePieces?_margin, hread] at hmargin
                  rw [if_neg Bool.false_ne_true, List.cons_append, List.cons_append,
                    List.append_assoc, singlePieces?_cons hquote hreturn fun _ => hmarker _, hbreak, hmargin, hpiece]
                  rw [hhead, hnext]
                  rfl
      | false =>
          have hfalse : lineStart = false := Bool.eq_false_iff.mpr fun he => by
            obtain ⟨d, hd, hdbreak⟩ := hstart he
            rw [← Option.some.inj hd, hbreak] at hdbreak
            exact Bool.false_ne_true hdbreak
          have hread := ih h.tail fun he : false = true => absurd he Bool.false_ne_true
          subst hfalse
          rw [singleBody.eq_def, singlePieces]
          dsimp only
          rw [hbreak, if_neg Bool.false_ne_true, if_neg Bool.false_ne_true]
          by_cases hquote : c = '\''
          · subst hquote
            rw [if_pos rfl, List.cons_append, List.cons_append, singlePieces?, hread]
            rfl
          · rw [if_neg hquote, List.cons_append,
              singlePieces?_cons hquote hreturn (fun he => absurd he Bool.false_ne_true), hbreak, hread]
            rfl

/-- **A text is read back from single quotes.** -/
theorem singleText?_singleQuoted (width : Nat) {text : List Char} (h : IsSingle text)
    {rest : List Char} (hrest : rest.head? ≠ some '\'') :
    singleText? (singleBody (width + 1) text ++ '\'' :: rest) = some (String.ofList text, rest) := by
  unfold singleText?
  rw [singlePieces?_singleBody width h hrest fun he => absurd he Bool.false_ne_true, Option.map_some]
  exact congrArg (fun read => some (String.ofList read, rest)) (foldFrom_singlePieces (width + 1) h).1

/-! ## Double quotes -/

/-- A number of one byte is read back from its two digits. -/
theorem read?_hex_byte : ∀ n < 0x100, Digits.read? 16 (Digits.hex 'A' 2 n) = some n := by
  decide +kernel

/-- A letter after a backslash stands for the character it was chosen for. -/
theorem escape?_letter {c letter : Char} (h : escapeLetter? c = some letter) (rest : List Char) :
    isBreak letter = false ∧ escape? (letter :: rest) = some (c, rest) := by
  unfold escapeLetter? at h
  split at h
  case h_15 => exact nomatch h
  all_goals
    obtain rfl := Option.some.inj h
    exact ⟨by decide, rfl⟩

theorem charOfPoint?_toNat (c : Char) : charOfPoint? c.toNat = some c := by
  have hvalid : c.toNat.isValidChar := c.valid
  have hchar := Char.ofNat_toNat c
  unfold Char.ofNat at hchar
  rw [dif_pos hvalid] at hchar
  unfold charOfPoint?
  rw [dif_pos hvalid, hchar]

/-- So do the digits of its number, after a letter that says how many there are. -/
theorem escape?_digits {c letter : Char} {width : Nat} (hwidth : escapeWidth? letter = some width)
    {digits : List Char} (hlength : digits.length = width)
    (hread : Digits.read? 16 digits = some c.toNat) (rest : List Char) :
    escape? (letter :: (digits ++ rest)) = some (c, rest) := by
  rw [escape?, hwidth]
  dsimp only
  rw [List.take_left' hlength, List.drop_left' hlength, hread, Option.bind_eq_bind, Option.bind_some,
    charOfPoint?_toNat, Option.bind_eq_bind, Option.bind_some, if_neg (by rw [List.length_append]; omega)]

/-- The characters of two bytes that can only be written by their numbers. -/
theorem eq_of_not_isPrintable {c : Char} (h : isPrintable c = false) (hc : ¬ c.toNat < 0x100) :
    c = '\ufeff' ∨ c = '\ufffe' ∨ c = '\uffff' := by
  unfold isPrintable at h
  simp only [Bool.or_eq_false_iff, Bool.and_eq_false_imp, decide_eq_true_eq, decide_eq_false_iff_not,
    bne_eq_false_iff_eq, Bool.and_eq_true] at h
  have hchar : ∀ d : Char, c.toNat = d.toNat → c = d := fun d he => Char.ext (UInt32.toNat_inj.mp he)
  obtain ⟨⟨⟨-, -⟩, hmiddle⟩, hhigh⟩ := h
  by_cases hmark : c.toNat = 0xFEFF
  · exact Or.inl (hchar _ hmark)
  · by_cases hlow : c.toNat ≤ 0xFFFD
    · exact absurd (hmiddle ⟨by omega, hlow⟩) hmark
    · have : c.toNat = 0xFFFE ∨ c.toNat = 0xFFFF := by omega
      rcases this with he | he
      · exact Or.inr (Or.inl (hchar _ he))
      · exact Or.inr (Or.inr (hchar _ he))

/-- **An escaped character is read back**, and is a space only if it stands as one. -/
theorem doublePieces?_escapeChar (c : Char) (length : Nat) (rest : List Char) :
    doublePieces? false (length + 1) (escapeChar c ++ rest)
      = addPiece (if c == ' ' then .space c else .char c) (doublePieces? false length rest) := by
  have hescape : ∀ {letter : Char} {tail : List Char}, isBreak letter = false → c ≠ ' ' →
      escape? (letter :: tail) = some (c, rest) →
      doublePieces? false (length + 1) ('\\' :: letter :: tail)
        = addPiece (if c == ' ' then .space c else .char c) (doublePieces? false length rest) := by
    intro letter tail hbreak hspace hread
    rw [doublePieces?, hbreak, if_neg Bool.false_ne_true, hread, beq_false_of_ne hspace]
    rfl
  unfold escapeChar
  cases hletter : escapeLetter? c with
  | some letter =>
      obtain ⟨hbreak, hread⟩ := escape?_letter hletter rest
      refine hescape hbreak ?_ hread
      rintro rfl
      exact nomatch hletter
  | none =>
      dsimp only
      split
      · next hprintable =>   -- it stands as it is
          have hne : ∀ {d : Char}, (escapeLetter? d).isSome = true → c ≠ d := by
            rintro d hd rfl
            rw [hletter] at hd
            exact Bool.false_ne_true hd
          have hquote : c ≠ '"' := hne rfl
          have hslash : c ≠ '\\' := hne rfl
          have hreturn : c ≠ '\r' := hne rfl
          have hbreak : isBreak c = false := by
            simp [isBreak, hne (d := '\n') rfl, hne (d := '\r') rfl, hne (d := '\u0085') rfl,
              hne (d := '\u2028') rfl, hne (d := '\u2029') rfl]
          have hspace : isSpace c = (c == ' ') := by simp [isSpace, hne (d := '\t') rfl]
          rw [List.singleton_append, doublePieces?, Bool.false_and, if_neg Bool.false_ne_true,
            if_neg hslash, pieceOf, hbreak, if_neg Bool.false_ne_true, hspace]
          · exact hquote
          · exact fun _ _ h => absurd h hslash
          · exact fun _ h => absurd h hreturn
      · next hprintable =>
          have hprintable := Bool.eq_false_iff.mpr hprintable
          have hspace : c ≠ ' ' := by rintro rfl; exact absurd hprintable (by decide)
          split
          · next hbyte =>
              exact hescape (by decide) hspace
                (escape?_digits (show escapeWidth? 'x' = some 2 from rfl) rfl (read?_hex_byte c.toNat hbyte) rest)
          · next hbyte =>
              have hread : Digits.read? 16 (Digits.hex 'A' 4 c.toNat) = some c.toNat := by
                rcases eq_of_not_isPrintable hprintable hbyte with rfl | rfl | rfl <;> decide
              exact hescape (by decide) hspace
                (escape?_digits (show escapeWidth? 'u' = some 4 from rfl) rfl hread rest)

/-- An escaped character has one character at least. -/
theorem length_escapeChar_pos (c : Char) : 0 < (escapeChar c).length := by
  unfold escapeChar
  split
  · exact Nat.succ_pos _
  · split
    · exact Nat.succ_pos _
    · split <;> exact Nat.succ_pos _

theorem length_le_escaped (text : List Char) : text.length ≤ (text.flatMap escapeChar).length := by
  induction text with
  | nil => exact Nat.zero_le _
  | cons c text ih =>
      have hpos := length_escapeChar_pos c
      rw [List.flatMap_cons, List.length_append, List.length_cons]
      omega

/-- **A text is read back from double quotes**, whatever it holds. -/
theorem doubleText?_doubleQuoted (text rest : List Char) :
    doubleText? (text.flatMap escapeChar ++ '"' :: rest) = some (String.ofList text, rest) := by
  have hpieces : ∀ length, text.length < length →
      doublePieces? false length (text.flatMap escapeChar ++ '"' :: rest)
        = some (linePieces (· == ' ') text, rest) := by
    induction text with
    | nil =>
        intro length hlength
        obtain ⟨n, rfl⟩ := Nat.exists_eq_add_one.mpr hlength
        rfl
    | cons c text ih =>
        intro length hlength
        obtain ⟨n, rfl⟩ : ∃ n, length = n + 1 := ⟨length - 1, by omega⟩
        rw [List.flatMap_cons, List.append_assoc, doublePieces?_escapeChar,
          ih n (by simpa using hlength)]
        rfl
  have hlength := length_le_escaped text
  unfold doubleText?
  rw [hpieces _ (by rw [List.length_append]; omega), Option.map_some]
  exact congrArg (fun read => some (String.ofList read, rest)) (foldFrom_linePieces _ text)

end SchemaForge.Document.Yaml
