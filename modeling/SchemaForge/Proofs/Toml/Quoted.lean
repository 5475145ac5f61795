import SchemaForge.Document.Toml.Quoted

/-!
# `Proofs.Toml.Quoted` — a written TOML string is read back

A text without line feeds is written in one of four forms, and each form is read back as the text,
whatever characters it has: a basic string escapes what cannot stand in it, a literal one is only
taken where everything can, and triple marks let up to two marks of the text stand in a row.

## Contents
- **Basic strings.** `basicBody?_escapeBasic`.
- **Literal strings.** `literalBody?_append`.
- **Triple marks.** `closeTriple_append`, `literalLines?_append` and `basicLines?_escapeBasic`.
- **Round trip.** `string?_quoted`.
-/

namespace SchemaForge.Document.Toml

/-! ## Characters -/

/-- A character that needs no escape and ends no line may stand in any string. -/
theorem isPlain_of_needsEscape {c : Char} (h : needsEscape c = false) (hline : c ≠ '\n') :
    isPlain c = true := by
  unfold needsEscape at h
  unfold isPlain
  simp only [Bool.or_eq_false_iff, Bool.and_eq_false_imp, decide_eq_true_eq, decide_eq_false_iff_not,
    beq_eq_false_iff_ne, ne_eq, Bool.or_eq_true, Bool.and_eq_true, beq_iff_eq] at h ⊢
  by_cases htab : c = '\t'
  · exact Or.inl htab
  · right
    by_cases hlow : c < ' '
    · simp_all
    · exact ⟨Char.not_lt.mp hlow, h.2⟩

/-- The control characters, which are escaped by their numbers. -/
theorem pointEscape?_hex_control : ∀ n < 128, pointEscape? (Digits.hex 'A' 4 n) = some (Char.ofNat n) := by
  decide

/-! ## Basic strings -/

/-- An escaped character is read back. -/
theorem basicBody?_escapeChar {c : Char} {escaped : List Char} (h : escapeChar c = some escaped)
    (rest : List Char) : basicBody? (escaped ++ rest) = (basicBody? rest).map (addChar c) := by
  unfold escapeChar at h
  split at h
  case h_6 =>
    -- no short escape: the character stands as its number
    split at h
    · next hescape =>
        obtain rfl := Option.some.inj h
        have hlt : c.toNat < 128 := by
          unfold needsEscape at hescape
          simp only [Bool.or_eq_true, Bool.and_eq_true, decide_eq_true_eq, beq_iff_eq] at hescape
          rcases hescape with ⟨⟨hlow, -⟩, -⟩ | rfl
          · have : c.toNat < 32 := hlow
            omega
          · decide
        have hread := pointEscape?_hex_control c.toNat hlt
        rw [Char.ofNat_toNat] at hread
        show basicBody? ('\\' :: 'u' :: (Digits.hex 'A' 4 c.toNat ++ rest)) = _
        generalize hdigits : Digits.hex 'A' 4 c.toNat = digits at hread ⊢
        obtain ⟨a, b, d, e, rfl⟩ : ∃ a b d e, digits = [a, b, d, e] := by
          rw [← hdigits]
          exact ⟨_, _, _, _, rfl⟩
        simp only [List.cons_append, List.nil_append, basicBody?, hread]
    · exact nomatch h
  all_goals
    obtain rfl := Option.some.inj h
    rfl

/-- A character that stands for itself is read as itself. -/
theorem basicBody?_cons {c : Char} (hquote : c ≠ '"') (hslash : c ≠ '\\') (hplain : isPlain c = true)
    (rest : List Char) : basicBody? (c :: rest) = (basicBody? rest).map (addChar c) := by
  rw [basicBody?, if_pos ⟨hplain, hslash⟩]
  · exact hquote
  · rintro _ _ _ _ _ rfl
    exact absurd rfl hslash
  · rintro _ _ _ _ _ _ _ _ _ rfl
    exact absurd rfl hslash
  · rintro _ _ rfl
    exact absurd rfl hslash

/-- What is not escaped is neither a control character nor a backslash. -/
theorem isPlain_of_escapeChar {c : Char} (h : escapeChar c = none) (hline : c ≠ '\n') :
    isPlain c = true ∧ c ≠ '\\' := by
  refine ⟨isPlain_of_needsEscape ?_ hline, ?_⟩
  · unfold escapeChar at h
    split at h
    case h_6 =>
      split at h
      · exact nomatch h
      · next hescape => exact Bool.eq_false_iff.mpr hescape
    all_goals exact nomatch h
  · rintro rfl
    exact nomatch h

/-- **The inside of a basic string of one line is read back**, whatever characters the text has. -/
theorem basicBody?_escapeBasic (run : Nat) (text rest : List Char) :
    basicBody? (escapeBasic false 0 run text ++ '"' :: rest) = some (text, rest) := by
  induction text generalizing run with
  | nil => rfl
  | cons c text ih =>
      unfold escapeBasic
      by_cases hquote : c = '"'
      · subst hquote
        rw [if_pos rfl, if_neg (Nat.not_lt_zero run)]
        show (basicBody? (escapeBasic false 0 0 text ++ '"' :: rest)).map _ = _
        rw [ih]
        rfl
      · rw [if_neg hquote]
        by_cases hline : c = '\n'
        · subst hline
          rw [if_pos ⟨rfl, rfl⟩]
          show (basicBody? (escapeBasic false 0 0 text ++ '"' :: rest)).map _ = _
          rw [ih]
          rfl
        · rw [if_neg fun h => hline h.1]
          cases hescape : escapeChar c with
          | some escaped =>
              dsimp only
              rw [List.append_assoc, basicBody?_escapeChar hescape, ih]
              rfl
          | none =>
              obtain ⟨hplain, hslash⟩ := isPlain_of_escapeChar hescape hline
              dsimp only
              rw [List.cons_append, basicBody?_cons hquote hslash hplain, ih]
              rfl

/-! ## Literal strings -/

/-- **The inside of a literal string of one line is read back.** -/
theorem literalBody?_append {text : List Char} (hplain : ∀ c ∈ text, isPlain c = true)
    (hquote : '\'' ∉ text) (rest : List Char) :
    literalBody? (text ++ '\'' :: rest) = some (text, rest) := by
  induction text with
  | nil => rfl
  | cons c text ih =>
      rw [List.mem_cons, not_or] at hquote
      rw [List.cons_append, literalBody?, if_pos (hplain c List.mem_cons_self),
        ih (fun d hd => hplain d (List.mem_cons_of_mem c hd)) hquote.2]
      · rfl
      · exact fun h => hquote.1 h.symm

/-! ## Triple marks -/

/-- More marks before a text make its runs no shorter. -/
theorem longestRun_mono {mark : Char} {run run' : Nat} (h : run ≤ run') (text : List Char) :
    longestRun mark run text ≤ longestRun mark run' text := by
  induction text generalizing run run' with
  | nil => exact h
  | cons c text ih =>
      unfold longestRun
      split
      · exact ih (Nat.succ_le_succ h)
      · exact Nat.max_le.mpr ⟨Nat.le_trans h (Nat.le_max_left _ _), Nat.le_max_right _ _⟩

/-- The run of marks at the front of a text counts with the marks before it. -/
theorem le_longestRun (mark : Char) (run : Nat) (text : List Char) :
    run ≤ longestRun mark run text := by
  induction text generalizing run with
  | nil => exact Nat.le_refl run
  | cons c text ih =>
      unfold longestRun
      split
      · exact Nat.le_trans (Nat.le_succ run) (ih (run + 1))
      · exact Nat.le_max_left _ _

/-- Runs of marks of at most two after a run that is already there. -/
theorem longestRun_tail {mark c : Char} {run : Nat} {text : List Char}
    (h : longestRun mark run (c :: text) ≤ 2) : longestRun mark 0 text ≤ 2 := by
  unfold longestRun at h
  split at h
  · exact Nat.le_trans (longestRun_mono (Nat.zero_le _) text) h
  · exact Nat.le_trans (Nat.le_max_right _ _) h

/-- Up to two marks of a text stand before the three that close it. -/
theorem closeTriple_append {mark : Char} {rest : List Char} (hrest : rest.head? ≠ some mark) :
    closeTriple mark rest = ([], rest) ∧ closeTriple mark (mark :: rest) = ([mark], rest) ∧
      closeTriple mark (mark :: mark :: rest) = ([mark, mark], rest) := by
  cases rest with
  | nil => simp [closeTriple]
  | cons a rest =>
      have ha : a ≠ mark := by simpa using hrest
      cases rest with
      | nil => simp [closeTriple, ha]
      | cons b rest => simp [closeTriple, ha]

/-- What a text with short runs of a mark starts with, if it starts with the mark: the mark alone
    or two of them, or one or two before another character. -/
theorem cases_of_longestRun {mark : Char} {text : List Char}
    (h : longestRun mark 0 (mark :: text) ≤ 2) :
    text = [] ∨ text = [mark] ∨ (∃ c after, text = c :: after ∧ c ≠ mark) ∨
      ∃ c after, text = mark :: c :: after ∧ c ≠ mark := by
  rw [longestRun, if_pos rfl] at h
  cases text with
  | nil => exact Or.inl rfl
  | cons c text =>
      by_cases hc : c = mark
      · subst hc
        rw [longestRun, if_pos rfl] at h
        cases text with
        | nil => exact Or.inr (Or.inl rfl)
        | cons d after =>
            refine Or.inr (Or.inr (Or.inr ⟨d, after, rfl, fun hd => ?_⟩))
            rw [longestRun, if_pos hd] at h
            exact absurd (Nat.le_trans (le_longestRun c 3 after) h) (by decide)
      · exact Or.inr (Or.inr (Or.inl ⟨c, text, rfl, hc⟩))

/-- **The inside of a literal string between triple marks is read back.** -/
theorem literalLines?_append {text rest : List Char}
    (hplain : ∀ c ∈ text, isPlain c = true ∧ c ≠ '\r' ∧ c ≠ '\n')
    (hrun : longestRun '\'' 0 text ≤ 2) (hrest : rest.head? ≠ some '\'') :
    literalLines? (text ++ '\'' :: '\'' :: '\'' :: rest) = some (text, rest) := by
  obtain ⟨hclose, hclose_one, hclose_two⟩ := closeTriple_append hrest
  induction text with
  | nil =>
      rw [List.nil_append, literalLines?, hclose]
  | cons c text ih =>
      obtain ⟨hc, hreturn, hline⟩ := hplain c List.mem_cons_self
      have hrest_read := ih (fun d hd => hplain d (List.mem_cons_of_mem c hd)) (longestRun_tail hrun)
      have hcons : (∀ after, c = '\'' → text ++ '\'' :: '\'' :: '\'' :: rest = '\'' :: '\'' :: after → False) →
          literalLines? (c :: (text ++ '\'' :: '\'' :: '\'' :: rest)) = some (c :: text, rest) := by
        intro htriple
        rw [literalLines?, if_pos hc, hrest_read]
        · rfl
        · exact fun _ h => absurd h hreturn
        · exact fun h => hline h
        · exact fun after h he => htriple after h he
      rw [List.cons_append]
      by_cases hquote : c = '\''
      · subst hquote
        rcases cases_of_longestRun hrun with rfl | rfl | ⟨d, after, rfl, hd⟩ | ⟨d, after, rfl, hd⟩
        · rw [List.nil_append, literalLines?, hclose_one]
        · rw [List.singleton_append, literalLines?, hclose_two]
        · exact hcons fun _ _ he => hd (List.cons.inj he).1
        · exact hcons fun _ _ he => hd (List.cons.inj (List.cons.inj he).2).1
      · exact hcons fun _ h => absurd h hquote

/-- A character that a text may hold between triple marks without an escape, or as a tab. -/
def NeedsNothing (c : Char) : Prop := needsEscape c = false ∧ c ≠ '\\' ∧ c ≠ '\n'

/-- Only tabs are escaped then. -/
theorem escapeBasic_cons {c : Char} (hquote : c ≠ '"') (hc : NeedsNothing c) (run : Nat)
    (text : List Char) :
    escapeBasic true 2 run (c :: text)
      = (if c = '\t' then ['\\', 't'] else [c]) ++ escapeBasic true 2 0 text := by
  obtain ⟨hescape, hslash, hline⟩ := hc
  rw [escapeBasic, if_neg hquote, if_neg fun h => hline h.1]
  by_cases htab : c = '\t'
  · subst htab
    rfl
  · have hnone : escapeChar c = none := by
      unfold escapeChar
      split
      case h_6 => rw [hescape, if_neg Bool.false_ne_true]
      case h_2 => exact absurd rfl htab
      case h_5 => exact absurd rfl hslash
      all_goals exact absurd hescape (by decide)
    rw [hnone, if_neg htab]
    rfl

/-- So the inside starts with no quote where the text does not. -/
theorem head?_escapeBasic {c : Char} (hquote : c ≠ '"') (hc : NeedsNothing c) (run : Nat)
    (text rest : List Char) :
    (escapeBasic true 2 run (c :: text) ++ rest).head? ≠ some '"' := by
  rw [escapeBasic_cons hquote hc]
  split
  · simp
  · simpa using hquote

/-- A character that starts no triple mark is read as itself. -/
theorem basicLines?_cons {c : Char} {rest : List Char} (hplain : isPlain c = true)
    (hc : c ≠ '\\' ∧ c ≠ '\r' ∧ c ≠ '\n')
    (htriple : ∀ after, c = '"' → rest = '"' :: '"' :: after → False) :
    basicLines? false (c :: rest) = (basicLines? false rest).map (addChar c) := by
  obtain ⟨hslash, hreturn, hline⟩ := hc
  rw [basicLines?, if_neg (by simp), if_pos ⟨hplain, hslash⟩]
  · exact fun _ h => absurd h hreturn
  · exact hline
  · exact htriple
  · exact fun _ _ _ _ _ h => absurd h hslash
  · exact fun _ _ _ _ _ _ _ _ _ h => absurd h hslash
  · exact fun _ _ h => absurd h hslash

/-- **The inside of a basic string between triple marks is read back**, where only tabs are
    escaped. -/
theorem basicLines?_escapeBasic {text rest : List Char} {run : Nat}
    (hplain : ∀ c ∈ text, NeedsNothing c) (hrun : longestRun '"' run text ≤ 2)
    (hrest : rest.head? ≠ some '"') :
    basicLines? false (escapeBasic true 2 run text ++ '"' :: '"' :: '"' :: rest)
      = some (text, rest) := by
  obtain ⟨hclose, hclose_one, hclose_two⟩ := closeTriple_append hrest
  induction text generalizing run with
  | nil =>
      rw [escapeBasic, List.nil_append, basicLines?, hclose]
  | cons c text ih =>
      have hc := hplain c List.mem_cons_self
      have htext := fun d hd => hplain d (List.mem_cons_of_mem c hd)
      by_cases hquote : c = '"'
      · subst hquote
        have hcases := cases_of_longestRun
          (Nat.le_trans (longestRun_mono (Nat.zero_le run) ('"' :: text)) hrun)
        rw [longestRun, if_pos rfl] at hrun
        have hlt : run < 2 := Nat.le_trans (le_longestRun '"' (run + 1) text) hrun
        rw [escapeBasic, if_pos rfl, if_pos hlt, List.cons_append]
        have hread := ih htext hrun
        have hcons := @basicLines?_cons '"' (escapeBasic true 2 (run + 1) text
          ++ '"' :: '"' :: '"' :: rest) (by decide) (by decide)
        rcases hcases with rfl | rfl | ⟨d, after, rfl, hd⟩ | ⟨d, after, rfl, hd⟩
        · rw [escapeBasic, List.nil_append, basicLines?, hclose_one]
        · rw [longestRun, if_pos rfl] at hrun
          have hnext : run + 1 < 2 := Nat.le_trans (le_longestRun '"' (run + 1 + 1) []) hrun
          rw [escapeBasic, if_pos rfl, if_pos hnext, escapeBasic, List.singleton_append, basicLines?,
            hclose_two]
        · rw [hcons, hread]
          · rfl
          · intro tail _ he
            refine head?_escapeBasic hd (htext d List.mem_cons_self) (run + 1) after
              ('"' :: '"' :: '"' :: rest) ?_
            rw [he]
            rfl
        · rw [hcons, hread]
          · rfl
          · intro tail _ he
            rw [longestRun, if_pos rfl] at hrun
            have hnext : run + 1 < 2 :=
              Nat.le_trans (le_longestRun '"' (run + 1 + 1) (d :: after)) hrun
            rw [escapeBasic, if_pos rfl, if_pos hnext, List.cons_append] at he
            refine head?_escapeBasic hd (htext d (by simp)) (run + 1 + 1) after
              ('"' :: '"' :: '"' :: rest) ?_
            rw [(List.cons.inj he).2]
            rfl
      · have hread := ih htext (longestRun_tail hrun)
        rw [escapeBasic_cons hquote hc]
        split
        · next htab =>
            subst htab
            show basicLines? false ('\\' :: 't' :: (escapeBasic true 2 0 text ++ _)) = _
            rw [basicLines?, if_neg (by simp [endsLine, isSpace]), shortEscape?, hread]
            · rfl
            all_goals simp
        · have hreturn : c ≠ '\r' := by
            rintro rfl
            exact absurd hc.1 (by decide)
          rw [List.singleton_append, List.cons_append, basicLines?_cons
            (isPlain_of_needsEscape hc.1 hc.2.2) ⟨hc.2.1, hreturn, hc.2.2⟩
            fun _ h => absurd h hquote, hread]
          rfl

/-! ## Round trip -/

/-- A text whose runs of a mark have length zero does not hold the mark. -/
theorem not_mem_of_longestRun {mark : Char} {text : List Char} (h : longestRun mark 0 text = 0) :
    mark ∉ text := by
  induction text with
  | nil => exact List.not_mem_nil
  | cons c text ih =>
      unfold longestRun at h
      split at h
      · exact absurd (Nat.le_trans (le_longestRun mark 1 text) (Nat.le_of_eq h)) (by decide)
      · next hc =>
          rw [List.mem_cons, not_or]
          exact ⟨fun he => hc he.symm, ih (Nat.max_eq_zero_iff.mp h).2⟩

/-- A basic string of one line is not taken for one between triple marks. -/
theorem string?_basic (text : List Char) {rest : List Char} (hrest : rest.head? ≠ some '"') :
    string? ('"' :: (escapeBasic false 0 0 text ++ '"' :: rest)) = some (text, rest) := by
  rw [string?, basicBody?_escapeBasic]
  intro after he
  cases text with
  | nil => exact hrest (by rw [(List.cons.inj he).2]; rfl)
  | cons c text =>
      unfold escapeBasic at he
      split at he
      · rw [if_neg (Nat.not_lt_zero 0)] at he
        exact absurd (List.cons.inj he).1 (by decide)
      · next hquote =>
          split at he
          · exact absurd (List.cons.inj he).1 (by decide)
          · cases hescape : escapeChar c with
            | none =>
                rw [hescape] at he
                exact hquote (List.cons.inj he).1
            | some escaped =>
                rw [hescape] at he
                have hslash : escaped.head? = some '\\' := by
                  unfold escapeChar at hescape
                  split at hescape
                  case h_6 =>
                    split at hescape
                    · obtain rfl := Option.some.inj hescape
                      rfl
                    · exact nomatch hescape
                  all_goals
                    obtain rfl := Option.some.inj hescape
                    rfl
                obtain ⟨tail, rfl⟩ := List.head?_eq_some_iff.mp hslash
                exact absurd (List.cons.inj he).1 (by decide)

/-- A literal string of one line is not taken for one between triple marks. -/
theorem string?_literal {text : List Char} (hplain : ∀ c ∈ text, isPlain c = true)
    (hquote : '\'' ∉ text) {rest : List Char} (hrest : rest.head? ≠ some '\'') :
    string? ('\'' :: (text ++ '\'' :: rest)) = some (text, rest) := by
  rw [string?, literalBody?_append hplain hquote]
  intro after he
  cases text with
  | nil => exact hrest (by rw [(List.cons.inj he).2]; rfl)
  | cons c text => exact hquote (by rw [(List.cons.inj he).1]; exact List.mem_cons_self)

/-- No line end stands right after the opening marks of a text without line ends. -/
theorem dropLineEnd_append {text rest : List Char} {mark : Char} (hmark : mark ≠ '\n' ∧ mark ≠ '\r')
    (htext : ∀ c ∈ text, c ≠ '\n' ∧ c ≠ '\r') :
    dropLineEnd (text ++ mark :: rest) = text ++ mark :: rest := by
  have hhead : ∀ c, (text ++ mark :: rest).head? = some c → c ≠ '\n' ∧ c ≠ '\r' := by
    intro c hc
    cases text with
    | nil => exact Option.some.inj hc ▸ hmark
    | cons d text => exact Option.some.inj hc ▸ htext d List.mem_cons_self
  unfold dropLineEnd
  split
  · next he => exact absurd rfl (hhead '\n' (by rw [he]; rfl)).1
  · next he => exact absurd rfl (hhead '\r' (by rw [he]; rfl)).2
  · rfl

/-- A literal string between triple marks is read back. -/
theorem string?_literalLines {text rest : List Char}
    (hplain : ∀ c ∈ text, isPlain c = true ∧ c ≠ '\r' ∧ c ≠ '\n')
    (hrun : longestRun '\'' 0 text ≤ 2) (hrest : rest.head? ≠ some '\'') :
    string? ('\'' :: '\'' :: '\'' :: (text ++ '\'' :: '\'' :: '\'' :: rest)) = some (text, rest) := by
  rw [string?, dropLineEnd_append (by decide) fun c hc => (hplain c hc).2.symm,
    literalLines?_append hplain hrun hrest]

/-- The inside of a basic string that needs no escapes has no line ends. -/
theorem ne_of_mem_escapeBasic {text : List Char} (hplain : ∀ c ∈ text, NeedsNothing c) (run : Nat) :
    ∀ c ∈ escapeBasic true 2 run text, c ≠ '\n' ∧ c ≠ '\r' := by
  induction text generalizing run with
  | nil => exact fun _ hc => nomatch hc
  | cons d text ih =>
      have hd := hplain d List.mem_cons_self
      have htext := ih fun c hc => hplain c (List.mem_cons_of_mem d hc)
      have hreturn : d ≠ '\r' := by
        rintro rfl
        exact absurd hd.1 (by decide)
      by_cases hquote : d = '"'
      · subst hquote
        rw [escapeBasic, if_pos rfl]
        split <;> simpa using htext _
      · rw [escapeBasic_cons hquote hd]
        split
        · simpa using htext 0
        · simpa [hd.2.2, hreturn] using htext 0

/-- A basic string between triple marks is read back, where only tabs are escaped. -/
theorem string?_basicLines {text rest : List Char} (hplain : ∀ c ∈ text, NeedsNothing c)
    (hrun : longestRun '"' 0 text ≤ 2) (hrest : rest.head? ≠ some '"') :
    string? ('"' :: '"' :: '"' :: (escapeBasic true 2 0 text ++ '"' :: '"' :: '"' :: rest))
      = some (text, rest) := by
  rw [string?, dropLineEnd_append (by decide) (ne_of_mem_escapeBasic hplain 0),
    basicLines?_escapeBasic hplain hrun hrest]

/-- **A text without line feeds is read back from its string**, whatever else it holds, if no quote
    follows. -/
theorem string?_quoted {text : String} (hline : '\n' ∉ text.toList) {rest : List Char}
    (hsingle : rest.head? ≠ some '\'') (hdouble : rest.head? ≠ some '"') :
    string? ((quoted text).toList ++ rest) = some (text.toList, rest) := by
  have hlines : text.toList.contains '\n' = false := by simpa using hline
  have hplain : text.toList.any needsEscape = false → ∀ c ∈ text.toList,
      isPlain c = true ∧ needsEscape c = false ∧ c ≠ '\r' ∧ c ≠ '\n' := by
    intro hescapes c hc
    have hescape : needsEscape c = false := by
      simpa using List.any_eq_false.mp hescapes c hc
    have hfeed : c ≠ '\n' := fun he => hline (he ▸ hc)
    refine ⟨isPlain_of_needsEscape hescape hfeed, hescape, ?_, hfeed⟩
    rintro rfl
    exact absurd hescape (by decide)
  have hbasic := string?_basic text.toList hdouble
  unfold quoted enclosed
  dsimp only
  rw [hlines]
  simp only [Bool.not_false, Bool.and_true, Bool.and_eq_true, Bool.not_eq_true', beq_iff_eq,
    decide_eq_true_eq, Bool.false_eq_true, if_false, String.append_empty]
  split
  · simpa using hbasic
  split
  · -- as it is between single marks
    next h =>
      have := string?_literal (fun c hc => (hplain h.1 c hc).1) (not_mem_of_longestRun h.2) hsingle
      simpa using this
  split
  · next h =>
      have := string?_basicLines (fun c hc => ⟨(hplain h.1.1 c hc).2.1, fun he => by
        simp [he ▸ hc] at h, (hplain h.1.1 c hc).2.2.2⟩) h.2 hdouble
      simpa using this
  split
  · next h =>
      have := string?_literalLines (fun c hc => ⟨(hplain h.1 c hc).1, (hplain h.1 c hc).2.2⟩) h.2 hsingle
      simpa using this
  · simpa using hbasic

end SchemaForge.Document.Toml
