import SchemaForge.Document.Yaml.Token
import SchemaForge.Proofs.Yaml.Scalar

/-!
# `Proofs.Yaml.Scan` — single tokens of a block text

Outside of brackets a text is read line by line. Between two tokens a scan stands at the next word,
with the line ends and the margin before it passed over; the collections that the margin ends are
closed when the next token is fetched. The lemmas give the scan after each kind of token that a
written tree has.

## Contents
- **Places.** `Scan.place`, a scan outside of brackets.
- **Moving on.** `skip_ahead`, `skip_margin` and `exists_skip_line`.
- **Candidates.** What is noted as a key, and when it is given up.
- **Standing.** `Stands`, a scan between two tokens, `tokensWithin?_of_stands` and
  `tokensWithin?_of_stands_nil`.
- **Runs.** `Reaches`, some steps of a scan up to where it stands again.
- **Tokens.** `tokensWithin?_key` and `tokensWithin?_dash`; `reaches_plain`, `reaches_quoted` and
  `reaches_brackets` for values.
-/

namespace SchemaForge.Document.Yaml

/-- A text that starts with a word, or is at its end: no white space and no comment comes first. -/
def IsAhead (text : List Char) : Prop :=
  ∀ c, text.head? = some c → isBreak c = false ∧ isSpace c = false ∧ c ≠ '#'

theorem isBreak_of_mem_margin {width : Nat} : ∀ c ∈ margin width, isBreak c = false := by
  intro c hc
  rw [List.eq_of_mem_replicate hc]
  decide

namespace Scan

/-! ## Places -/

/-- A scan outside of brackets, perhaps with something noted as a key. -/
def place (rest : List Char) (index line column : Nat) (indents : List Nat)
    (candidate : Option Candidate) (allowsKey : Bool) (tokens : List Token) : Scan :=
  { rest, index, line, column, indents, candidates := [candidate], allowsKey
    tokens := tokens.toArray }

variable {rest ahead : List Char} {index line column : Nat} {indents : List Nat}
  {candidate : Option Candidate} {allowsKey : Bool} {tokens : List Token}

theorem push_place (token : Token) :
    (place rest index line column indents candidate allowsKey tokens).push token
      = place rest index line column indents candidate allowsKey (tokens ++ [token]) := by
  simp [push, place]

/-! ## Moving on -/

theorem advanceTo_append (scan : Scan) {passed rest : List Char} (h : scan.rest = passed ++ rest) :
    scan.advanceTo rest = advanceTo.pass scan rest scan.index scan.line scan.column passed := by
  have hlength : scan.rest.length - rest.length = passed.length := by
    rw [h, List.length_append]
    omega
  rw [advanceTo, hlength, h, List.take_left' rfl]

/-- Characters within a line move a scan on by their number. -/
theorem pass_within (scan : Scan) (rest : List Char) (index line column : Nat) {passed : List Char}
    (h : ∀ c ∈ passed, isBreak c = false) :
    advanceTo.pass scan rest index line column passed
      = { scan with rest, index := index + passed.length, line, column := column + passed.length } := by
  induction passed generalizing index column with
  | nil => rfl
  | cons c passed ih =>
      have hindex : index + 1 + passed.length = index + (passed.length + 1) := by omega
      have hcolumn : column + 1 + passed.length = column + (passed.length + 1) := by omega
      rw [advanceTo.pass, h c List.mem_cons_self, if_neg Bool.false_ne_true,
        ih _ _ fun d hd => h d (List.mem_cons_of_mem c hd), List.length_cons, hindex, hcolumn]

/-- Characters never move a scan back to an earlier line. -/
theorem exists_pass (scan : Scan) (rest : List Char) (index line column : Nat) (passed : List Char) :
    ∃ index' line' column', line ≤ line' ∧ advanceTo.pass scan rest index line column passed
      = { scan with rest, index := index', line := line', column := column' } := by
  induction passed generalizing index line column with
  | nil => exact ⟨index, line, column, Nat.le_refl line, rfl⟩
  | cons c passed ih =>
      rw [advanceTo.pass]
      split
      · obtain ⟨index', line', column', hline, hpass⟩ := ih (index + 1) (line + 1) 0
        exact ⟨index', line', column', by omega, hpass⟩
      · exact ih (index + 1) line (column + 1)

/-- A line end and a margin move a scan to a column of a later line. -/
theorem exists_pass_line (scan : Scan) (rest : List Char) (index line column : Nat)
    (passed : List Char) (width : Nat) :
    ∃ index' line', line < line' ∧
      advanceTo.pass scan rest index line column (passed ++ '\n' :: margin width)
        = { scan with rest, index := index', line := line', column := width } := by
  induction passed generalizing index line column with
  | nil =>
      refine ⟨index + 1 + width, line + 1, Nat.lt_succ_self line, ?_⟩
      rw [List.nil_append, advanceTo.pass, if_pos (by decide),
        pass_within scan rest _ _ _ isBreak_of_mem_margin, margin, List.length_replicate,
        Nat.zero_add]
  | cons c passed ih =>
      rw [List.cons_append, advanceTo.pass]
      split
      · obtain ⟨index', line', hline, hpass⟩ := ih (index + 1) (line + 1) 0
        exact ⟨index', line', by omega, hpass⟩
      · exact ih (index + 1) line (column + 1)

theorem advanceTo_within {passed : List Char} (h : ∀ c ∈ passed, isBreak c = false) :
    (place (passed ++ rest) index line column indents candidate allowsKey tokens).advanceTo rest
      = place rest (index + passed.length) line (column + passed.length) indents candidate allowsKey
          tokens := by
  rw [advanceTo_append _ rfl, pass_within _ _ _ _ _ h]
  rfl

theorem exists_advanceTo (passed rest : List Char) :
    ∃ index' line' column', line ≤ line' ∧
      (place (passed ++ rest) index line column indents candidate allowsKey tokens).advanceTo rest
        = place rest index' line' column' indents candidate allowsKey tokens := by
  obtain ⟨index', line', column', hline, hpass⟩ := exists_pass
    (place (passed ++ rest) index line column indents candidate allowsKey tokens) rest index line column
    passed
  exact ⟨index', line', column', hline, by rw [advanceTo_append _ rfl]; exact hpass⟩

theorem exists_advanceTo_line (passed : List Char) (width : Nat) (rest : List Char) :
    ∃ index' line', line < line' ∧
      (place (passed ++ '\n' :: (margin width ++ rest)) index line column indents candidate allowsKey
          tokens).advanceTo rest
        = place rest index' line' width indents candidate allowsKey tokens := by
  obtain ⟨index', line', hline, hpass⟩ := exists_pass_line
    (place (passed ++ '\n' :: (margin width ++ rest)) index line column indents candidate allowsKey
      tokens) rest index line column passed width
  have hsplit : passed ++ '\n' :: (margin width ++ rest) = (passed ++ '\n' :: margin width) ++ rest := by
    rw [List.append_assoc]
    rfl
  exact ⟨index', line', hline, by rw [advanceTo_append _ hsplit]; exact hpass⟩

/-! ## White space -/

theorem skipBlanks_ahead (isInside allowsKey : Bool) {ahead : List Char} (h : IsAhead ahead) :
    skipBlanks isInside false allowsKey ahead = (ahead, allowsKey) := by
  cases ahead with
  | nil => rfl
  | cons c ahead =>
      obtain ⟨hbreak, hspace, hhash⟩ := h c rfl
      simp only [isSpace, Bool.or_eq_false_iff, beq_eq_false_iff_ne] at hspace
      simp [skipBlanks, hbreak, hhash, hspace]

theorem skipBlanks_margin (isInside allowsKey : Bool) (width : Nat) {ahead : List Char}
    (h : IsAhead ahead) :
    skipBlanks isInside false allowsKey (margin width ++ ahead) = (ahead, allowsKey) := by
  induction width with
  | zero => exact skipBlanks_ahead isInside allowsKey h
  | succ width ih =>
      have hmargin : margin (width + 1) ++ ahead = ' ' :: (margin width ++ ahead) := rfl
      rw [hmargin, skipBlanks, if_neg (by decide), if_neg (by decide), if_pos (by simp), ih]

/-- Nothing is passed over before a word. -/
theorem skip_ahead {scan : Scan} (h : IsAhead scan.rest) : scan.skip = scan := by
  unfold skip
  rw [skipBlanks_ahead _ _ h]
  dsimp only
  rw [advanceTo_append scan (List.nil_append scan.rest).symm]
  rfl

theorem skip_place {isAllowed : Bool} {index' line' column' : Nat}
    (hblanks : skipBlanks false false allowsKey rest = (ahead, isAllowed))
    (hmoved : (place rest index line column indents candidate allowsKey tokens).advanceTo ahead
      = place ahead index' line' column' indents candidate allowsKey tokens) :
    (place rest index line column indents candidate allowsKey tokens).skip
      = place ahead index' line' column' indents candidate isAllowed tokens := by
  have hscan : skipBlanks (place rest index line column indents candidate allowsKey tokens).isInside
      false (place rest index line column indents candidate allowsKey tokens).allowsKey
      (place rest index line column indents candidate allowsKey tokens).rest = (ahead, isAllowed) :=
    hblanks
  unfold skip
  rw [hscan]
  dsimp only
  rw [hmoved]
  rfl

/-- Blanks within a line are passed over. -/
theorem skip_margin (width : Nat) (h : IsAhead ahead) :
    (place (margin width ++ ahead) index line column indents candidate allowsKey tokens).skip
      = place ahead (index + width) line (column + width) indents candidate allowsKey tokens := by
  refine skip_place (skipBlanks_margin false allowsKey width h) ?_
  rw [advanceTo_within isBreak_of_mem_margin, margin, List.length_replicate]

/-- **A line end is passed over with the margin after it**, and a key may start then. -/
theorem exists_skip_line (width : Nat) (h : IsAhead ahead) :
    ∃ index' line', line < line' ∧
      (place ('\n' :: (margin width ++ ahead)) index line column indents candidate allowsKey tokens).skip
        = place ahead index' line' width indents candidate true tokens := by
  have hblanks : skipBlanks false false allowsKey ('\n' :: (margin width ++ ahead)) = (ahead, true) := by
    rw [skipBlanks, if_pos (by decide), skipBlanks_margin _ _ _ h, Bool.not_false, Bool.or_true]
  obtain ⟨index', line', hline, hmoved⟩ := exists_advanceTo_line [] width ahead
  exact ⟨index', line', hline, skip_place hblanks hmoved⟩

/-! ## Candidates -/

/-- Nothing is given up that stands close before on the same line. -/
theorem dropStale?_near {scan : Scan}
    (h : ∀ candidate ∈ scan.candidates, ∀ c, candidate = some c →
      c.line = scan.line ∧ scan.index ≤ c.index + 1024) : scan.dropStale? = some scan := by
  have hstale : ∀ candidate ∈ scan.candidates, ∀ c, candidate = some c → scan.isStale c = false := by
    intro candidate hcandidate c hc
    obtain ⟨hline, hindex⟩ := h candidate hcandidate c hc
    simp only [isStale, Bool.or_eq_false_iff, decide_eq_false_iff_not]
    omega
  have hkept : scan.candidates.map (fun candidate => candidate.filter fun c => !scan.isStale c)
      = scan.candidates := by
    refine (List.map_congr_left fun candidate hcandidate => ?_).trans (List.map_id _)
    cases candidate with
    | none => rfl
    | some c => simp [hstale _ hcandidate c rfl]
  have hlost : scan.candidates.any (fun candidate =>
      (candidate.map fun c => scan.isStale c && c.isRequired).getD false) = false := by
    rw [List.any_eq_false]
    intro candidate hcandidate
    cases candidate with
    | none => simp
    | some c => simp [hstale _ hcandidate c rfl]
  unfold dropStale?
  dsimp only
  rw [hlost, if_neg Bool.false_ne_true, hkept]

/-- A word on an earlier line is given up, unless it had to be a key. -/
theorem dropStale?_place
    (h : ∀ c, candidate = some c → c.isRequired = false ∧ c.line < line) :
    (place rest index line column indents candidate allowsKey tokens).dropStale?
      = some (place rest index line column indents none allowsKey tokens) := by
  cases candidate with
  | none => rfl
  | some c =>
      obtain ⟨hrequired, hline⟩ := h c rfl
      have hstale : (place rest index line column indents (some c) allowsKey tokens).isStale c = true := by
        simp [isStale, place, hline]
      unfold dropStale?
      dsimp only
      rw [if_neg (by simp [place, hrequired])]
      simp only [place] at hstale ⊢
      simp [hstale]

/-- What is noted of a word where a key may start. -/
def noted (index line column : Nat) (indents : List Nat) (allowsKey : Bool) (tokens : List Token) :
    Option Candidate :=
  if allowsKey then some ⟨tokens.length, index, line, column, indents.head? == some column⟩ else none

theorem noteCandidate?_place :
    (place rest index line column indents none allowsKey tokens).noteCandidate?
      = some (place rest index line column indents (noted index line column indents allowsKey tokens)
          allowsKey tokens) := by
  cases allowsKey with
  | false => rfl
  | true => simp [noteCandidate?, place, dropCandidate?, candidate?, setCandidate, isInside, noted]

/-- What is noted is what stands next. -/
theorem noted_place {c : Candidate}
    (h : noted index line column indents allowsKey tokens = some c) : c.line = line ∧ c.index = index := by
  unfold noted at h
  split at h
  · obtain rfl := Option.some.inj h
    exact ⟨rfl, rfl⟩
  · exact nomatch h

/-- What is noted deeper than the innermost collection need not be a key. -/
theorem noted_optional {c : Candidate} (hdeep : indents.head? ≠ some column)
    (h : noted index line column indents allowsKey tokens = some c) :
    c.isRequired = false ∧ c.line = line := by
  unfold noted at h
  split at h
  · obtain rfl := Option.some.inj h
    exact ⟨beq_false_of_ne hdeep, rfl⟩
  · exact nomatch h

/-! ## Collections -/

/-- The collections that a level is inside of stay open, and the deeper ones are closed. -/
theorem closeBlocks_place {pending : List Nat} {level : Nat}
    (hpending : ∀ indent ∈ pending, level ≤ indent)
    (hindents : ∀ indent, indents.head? = some indent → indent < level) :
    (place rest index line column (pending ++ indents) candidate allowsKey tokens).closeBlocks level
      = place rest index line column indents candidate allowsKey
          (tokens ++ pending.map fun _ => .blockEnd) := by
  have hall : ∀ indent ∈ pending, decide (level ≤ indent) = true := fun indent h =>
    decide_eq_true (hpending indent h)
  have hstop : ∀ indent, indents.head? = some indent → decide (level ≤ indent) = false :=
    fun indent h => decide_eq_false (Nat.not_le.mpr (hindents indent h))
  have hdrop : (pending ++ indents).dropWhile (fun indent => decide (level ≤ indent)) = indents := by
    rw [List.dropWhile_append_of_pos hall]
    cases indents with
    | nil => rfl
    | cons indent indents => rw [List.dropWhile_cons_of_neg (by simp [hstop indent rfl])]
  have htake : (pending ++ indents).takeWhile (fun indent => decide (level ≤ indent)) = pending := by
    rw [List.takeWhile_append_of_pos hall]
    cases indents with
    | nil => rw [List.takeWhile_nil, List.append_nil]
    | cons indent indents => rw [List.takeWhile_cons_of_neg (by simp [hstop indent rfl]), List.append_nil]
  unfold closeBlocks
  rw [if_neg (by simp [isInside, place])]
  simp only [place, hdrop, htake]
  simp

/-- Within a line that is deeper than the collections nothing is closed. -/
theorem closeBlocks_eq_self {scan : Scan} {level : Nat}
    (h : ∀ indent, scan.indents.head? = some indent → indent < level) : scan.closeBlocks level = scan := by
  have hnone : scan.indents.takeWhile (fun indent => decide (level ≤ indent)) = [] ∧
      scan.indents.dropWhile (fun indent => decide (level ≤ indent)) = scan.indents := by
    cases hindents : scan.indents with
    | nil => exact ⟨rfl, rfl⟩
    | cons indent indents =>
        have hlt : decide (level ≤ indent) = false :=
          decide_eq_false (Nat.not_le.mpr (h indent (by rw [hindents]; rfl)))
        exact ⟨List.takeWhile_cons_of_neg (by simp [hlt]), List.dropWhile_cons_of_neg (by simp [hlt])⟩
  unfold closeBlocks
  split
  · rfl
  · rw [hnone.1, hnone.2]
    simp

/-! ## Standing between two tokens -/

/-- A scan stands before a text at a column: with what comes before it passed over, with nothing
    noted as a key, and inside of some collections. Deeper ones may still be open; their ends are
    among the tokens already. -/
def Stands (scan : Scan) (column : Nat) (ahead : List Char) (indents : List Nat)
    (tokens : List Token) : Prop :=
  ∃ index line pending shown,
    scan.skip.dropStale? = some (place ahead index line column (pending ++ indents) none true shown) ∧
      (∀ indent ∈ pending, column < indent) ∧
      tokens = shown ++ pending.map fun _ => .blockEnd

/-- A collection that is deeper than the column ends there. -/
theorem Stands.close {scan : Scan} {indent : Nat}
    (h : Stands scan column ahead (indent :: indents) tokens) (hindent : column < indent) :
    Stands scan column ahead indents (tokens ++ [.blockEnd]) := by
  obtain ⟨index, line, pending, shown, hscan, hpending, rfl⟩ := h
  refine ⟨index, line, pending ++ [indent], shown, ?_, ?_, ?_⟩
  · rw [hscan, List.append_assoc, List.singleton_append]
  · intro other hother
    rcases List.mem_append.mp hother with hother | hother
    · exact hpending other hother
    · rw [List.mem_singleton.mp hother]
      exact hindent
  · rw [List.map_append, List.append_assoc]
    rfl

/-- **The next token is fetched once the deeper collections are closed.** -/
theorem tokensWithin?_of_stands {scan : Scan} {c : Char}
    (h : Stands scan column (c :: rest) indents tokens)
    (hindents : ∀ indent, indents.head? = some indent → indent ≤ column) :
    ∃ index line, ∀ steps, scan.tokensWithin? (steps + 1)
      = ((place (c :: rest) index line column indents none true tokens).fetch? c rest).bind
          (tokensWithin? steps) := by
  obtain ⟨index, line, pending, shown, hscan, hpending, rfl⟩ := h
  refine ⟨index, line, fun steps => ?_⟩
  have hclosed : (place (c :: rest) index line column (pending ++ indents) none true shown).closeBlocks
      (column + 1) = _ :=
    closeBlocks_place (fun indent hindent => hpending indent hindent)
      (fun indent hindent => Nat.lt_succ_of_le (hindents indent hindent))
  rw [tokensWithin?, hscan, ← hclosed]
  rfl

/-- A token is fetched where a scan goes on within a line. -/
theorem tokensWithin?_within {scan next : Scan} (hskip : scan.skip = next)
    (hcandidates : ∀ candidate ∈ next.candidates, ∀ c, candidate = some c →
      c.line = next.line ∧ next.index ≤ c.index + 1024)
    (hindents : ∀ indent, next.indents.head? = some indent → indent ≤ next.column) {c : Char}
    (hrest : next.rest = c :: rest) (steps : Nat) :
    scan.tokensWithin? (steps + 1) = (next.fetch? c rest).bind (tokensWithin? steps) := by
  have hclosed : next.closeBlocks (next.column + 1) = next :=
    closeBlocks_eq_self fun indent hindent => Nat.lt_succ_of_le (hindents indent hindent)
  rw [tokensWithin?, hskip, dropStale?_near hcandidates, Option.bind_eq_bind, Option.bind_some, hrest]
  dsimp only
  rw [hclosed]

/-- **At the end of the text all collections are closed.** -/
theorem tokensWithin?_of_stands_nil {scan : Scan} (h : Stands scan column [] indents tokens)
    (steps : Nat) : scan.tokensWithin? (steps + 1) = some (tokens ++ indents.map fun _ => .blockEnd) := by
  obtain ⟨index, line, pending, shown, hscan, -, rfl⟩ := h
  have hclosed : (place [] index line column ((pending ++ indents) ++ []) none true shown).closeBlocks 0
      = place [] index line column [] none true (shown ++ (pending ++ indents).map fun _ => .blockEnd) :=
    closeBlocks_place (fun indent _ => Nat.zero_le indent) (fun _ hindent => nomatch hindent)
  rw [List.append_nil] at hclosed
  have hstep : scan.tokensWithin? (steps + 1)
      = ((place [] index line column (pending ++ indents) none true shown).closeBlocks 0).dropCandidate?.map
          fun scan => scan.tokens.toList := by
    rw [tokensWithin?, hscan]
    rfl
  rw [hstep, hclosed, List.map_append, ← List.append_assoc]
  rfl

/-- **A scan stands before the next word** once the line ends and the margin before it are passed
    over. What was noted as a key on an earlier line is given up. -/
theorem stands_of_ahead (hahead : IsAhead ahead)
    (hcandidate : ∀ c, candidate = some c → c.isRequired = false ∧ c.line < line) :
    Stands (place ahead index line column indents candidate true tokens) column ahead indents tokens := by
  refine ⟨index, line, [], tokens, ?_, fun _ hindent => (nomatch hindent), (List.append_nil _).symm⟩
  rw [skip_ahead hahead]
  exact dropStale?_place hcandidate

/-- Blanks within the line are passed over, too. -/
theorem stands_of_margin (width : Nat) (hahead : IsAhead ahead) :
    Stands (place (margin width ++ ahead) index line column indents none true tokens) (column + width)
      ahead indents tokens := by
  refine ⟨index + width, line, [], tokens, ?_, fun _ hindent => (nomatch hindent),
    (List.append_nil _).symm⟩
  rw [skip_margin width hahead]
  exact dropStale?_place fun _ hc => nomatch hc

/-- At the end of a line it stands before the first word of the next one. -/
theorem stands_of_line {start : Nat} (hahead : IsAhead ahead)
    (hcandidate : ∀ c, candidate = some c → c.isRequired = false ∧ c.line ≤ line) :
    Stands (place ('\n' :: (margin column ++ ahead)) index line start indents candidate allowsKey tokens)
      column ahead indents tokens := by
  obtain ⟨index', line', hline, hskip⟩ := exists_skip_line column hahead
  refine ⟨index', line', [], tokens, ?_, fun _ hindent => (nomatch hindent), (List.append_nil _).symm⟩
  rw [hskip]
  exact dropStale?_place fun c hc =>
    ⟨(hcandidate c hc).1, Nat.lt_of_le_of_lt (hcandidate c hc).2 hline⟩

/-! ## Runs -/

/-- **A scan comes to stand again** before a text, after at most some number of steps. -/
def Reaches (scan : Scan) (most column : Nat) (ahead : List Char) (indents : List Nat)
    (tokens : List Token) : Prop :=
  ∃ (steps : Nat) (next : Scan), steps ≤ most ∧
    (∀ more, scan.tokensWithin? (more + steps) = next.tokensWithin? more) ∧
    next.Stands column ahead indents tokens

variable {scan next : Scan} {most most' steps column' : Nat} {ahead' : List Char}
  {indents' : List Nat} {tokens' : List Token}

theorem Stands.reaches (h : scan.Stands column ahead indents tokens) :
    scan.Reaches 0 column ahead indents tokens :=
  ⟨0, scan, Nat.le_refl 0, fun _ => rfl, h⟩

theorem Reaches.mono (h : scan.Reaches most column ahead indents tokens) (hle : most ≤ most') :
    scan.Reaches most' column ahead indents tokens := by
  obtain ⟨steps, next, hsteps, hrun, hstands⟩ := h
  exact ⟨steps, next, Nat.le_trans hsteps hle, hrun, hstands⟩

/-- The first steps of a run are put before it. -/
theorem Reaches.after (h : next.Reaches most column ahead indents tokens)
    (hrun : ∀ more, scan.tokensWithin? (more + steps) = next.tokensWithin? more) :
    scan.Reaches (steps + most) column ahead indents tokens := by
  obtain ⟨steps', last, hsteps, hrun', hstands⟩ := h
  refine ⟨steps' + steps, last, by omega, fun more => ?_, hstands⟩
  rw [← Nat.add_assoc, hrun, hrun']

/-- **A run goes on where another one ends.** -/
theorem Reaches.trans (h : scan.Reaches most column ahead indents tokens)
    (hnext : ∀ next : Scan, next.Stands column ahead indents tokens →
      next.Reaches most' column' ahead' indents' tokens') :
    scan.Reaches (most + most') column' ahead' indents' tokens' := by
  obtain ⟨steps, next, hsteps, hrun, hstands⟩ := h
  exact ((hnext next hstands).after hrun).mono (Nat.add_le_add_right hsteps most')

/-- A collection is closed where a run ends. -/
theorem Reaches.close {indent : Nat}
    (h : scan.Reaches most column ahead (indent :: indents) tokens) (hindent : column < indent) :
    scan.Reaches most column ahead indents (tokens ++ [.blockEnd]) := by
  obtain ⟨steps, next, hsteps, hrun, hstands⟩ := h
  exact ⟨steps, next, hsteps, hrun, hstands.close hindent⟩

/-! ## Text without quotes -/

theorem endsWord_append {text : List Char} (h : endsWord text = false) (after : List Char) :
    endsWord (text ++ after) = false := by
  cases text with
  | nil => exact nomatch h
  | cons c text => exact h

theorem startsPlain_of_isPlain {c : Char} {tail : List Char} (h : IsPlain (c :: tail))
    (after : List Char) : startsPlain false c (tail ++ after) = true := by
  obtain ⟨hindicator, hmark, hbreak, hspace⟩ := h.head
  have hword : c = '-' ∨ c = '?' ∨ c = ':' → endsWord (tail ++ after) = false := fun hc =>
    endsWord_append (hmark hc) after
  unfold startsPlain
  split
  · next hdash =>
      have hends := hword (Or.inl (beq_iff_eq.mp hdash))
      cases htail : tail ++ after with
      | nil => rfl
      | cons d rest =>
          rw [htail, endsWord, Bool.or_eq_false_iff] at hends
          simp [hends.1]
  split
  · next hother =>
      rw [Bool.or_eq_true, beq_iff_eq, beq_iff_eq] at hother
      rw [hword (Or.inr hother)]
      rfl
  · have hlist : ",[]\x7b\x7d#&*!|>'\"%@\x60".toList.contains c = false := by
      rw [Bool.eq_false_iff]
      intro hmem
      exact hindicator ((by decide : ",[]\x7b\x7d#&*!|>'\"%@\x60".toList ⊆ indicators)
        (List.contains_iff_mem.mp hmem))
    rw [hspace, hbreak, hlist]
    rfl

/-- A text without quotes is fetched as one. -/
theorem fetch?_plain {scan : Scan} (hinside : scan.isInside = false) {text after : List Char}
    (h : IsPlain text) (hafter : after.head? ≠ some '-' ∧ after.head? ≠ some '.') {c : Char}
    (htext : text ++ after = c :: rest) : scan.fetch? c rest = scan.plain? (c :: rest) := by
  obtain ⟨tail, rfl⟩ : ∃ tail, text = c :: tail := by
    cases text with
    | nil => exact absurd rfl h.ne_nil
    | cons d tail => exact ⟨tail, by rw [(List.cons.inj htext).1]⟩
  obtain ⟨-, rfl⟩ : c = c ∧ tail ++ after = rest := List.cons.inj htext
  obtain ⟨hindicator, hmark, -, -⟩ := h.head
  have hmarker := h.startsMarker_eq_false hafter
  have hne : ∀ d ∈ indicators, c ≠ d := fun d hd he => hindicator (he ▸ hd)
  unfold fetch?
  dsimp only
  rw [if_neg fun hc => hne '%' (by decide) hc.2,
    if_neg fun hc => Bool.false_ne_true (hmarker.symm.trans hc.2)]
  split
  case h_11 =>
    have hends : ∀ {d : Char}, (d = '-' ∨ d = '?' ∨ d = ':') → c = d →
        endsWord (tail ++ after) ≠ true := fun hd hc =>
      Bool.eq_false_iff.mp (endsWord_append (hmark (by rwa [hc])) after)
    have hblock : ¬(c = '|' ∨ c = '>') := by
      rintro (hc | hc)
      · exact hne '|' (by decide) hc
      · exact hne '>' (by decide) hc
    rw [hinside, if_neg fun hc => hends (Or.inl rfl) hc.1 hc.2,
      if_neg fun hc => hends (Or.inr (Or.inl rfl)) hc.1 (hc.2.resolve_left Bool.false_ne_true),
      if_neg fun hc => hends (Or.inr (Or.inr rfl)) hc.1 (hc.2.resolve_left Bool.false_ne_true),
      if_neg fun hc => hblock hc.1, if_pos (startsPlain_of_isPlain h after)]
  all_goals exact absurd rfl (hne _ (by decide))

/-- The first column that is inside of the innermost of some collections. -/
def levelOf : List Nat → Nat
  | []          => 0
  | indent :: _ => indent + 1

/-- **A text without quotes becomes one token**, and the scan moves on to where it ends. -/
theorem fetch?_place_plain {text after : List Char} (h : IsPlain text)
    (hafter : after.head? ≠ some '-' ∧ after.head? ≠ some '.') {c : Char}
    (htext : text ++ after = c :: rest) {isBroken : Bool}
    (hread : PlainContext.text? ⟨false, levelOf indents⟩ column (text ++ after)
      = some (String.ofList text, isBroken, ahead)) :
    (place (c :: rest) index line column indents none allowsKey tokens).fetch? c rest
      = some (((place (text ++ after) index line column indents
          (noted index line column indents allowsKey tokens) isBroken tokens).advanceTo ahead).push
            (.scalar .plain (String.ofList text))) := by
  rw [fetch?_plain rfl h hafter htext, plain?, noteCandidate?_place, Option.bind_eq_bind,
    Option.bind_some]
  have hcontext : PlainContext.text? ⟨isInside (place (c :: rest) index line column indents
      (noted index line column indents allowsKey tokens) allowsKey tokens),
      level (place (c :: rest) index line column indents
        (noted index line column indents allowsKey tokens) allowsKey tokens)⟩ column (c :: rest)
      = some (String.ofList text, isBroken, ahead) := by
    rw [← htext]
    cases indents <;> exact hread
  rw [htext]
  change Option.bind (PlainContext.text? _ column (c :: rest)) _ = _
  rw [hcontext]
  rfl

/-! ## Keys -/

/-- The tables that a scan is inside of after a key at a column. -/
def opened (column : Nat) (indents : List Nat) : List Nat :=
  if indents.head? = some column then indents else column :: indents

/-- The token before the first key of a table. -/
def opening (column : Nat) (indents : List Nat) : List Token :=
  if indents.head? = some column then [] else [.blockTable]

theorem insertIdx_length (tokens more : List Token) (token : Token) :
    (tokens ++ more).insertIdx tokens.length token = tokens ++ token :: more := by
  induction tokens with
  | nil => exact List.insertIdx_zero
  | cons first tokens ih =>
      rw [List.cons_append, List.length_cons, List.insertIdx_succ_cons, ih, List.cons_append]

/-- A table is opened before what was noted, unless the scan is in a table at the column already. -/
theorem openBlock_place {start : Nat} (hindents : ∀ indent, indents.head? = some indent → indent ≤ start)
    (more : List Token) :
    (place rest index line column indents candidate allowsKey (tokens ++ more)).openBlock start
        tokens.length .blockTable
      = place rest index line column (opened start indents) candidate allowsKey
          (tokens ++ opening start indents ++ more) := by
  have hinside : (place rest index line column indents candidate allowsKey (tokens ++ more)).isInside
      = false := rfl
  unfold openBlock opened opening
  rw [hinside, Bool.false_or]
  by_cases hhead : indents.head? = some start
  · have hlevel : start < (place rest index line column indents candidate allowsKey
        (tokens ++ more)).level := by
      obtain ⟨outer, rfl⟩ := List.head?_eq_some_iff.mp hhead
      exact Nat.lt_succ_self start
    rw [if_pos (decide_eq_true hlevel), if_pos hhead, if_pos hhead, List.append_nil]
  · have hlevel : ¬ start < (place rest index line column indents candidate allowsKey
        (tokens ++ more)).level := by
      cases indents with
      | nil => exact Nat.not_lt_zero start
      | cons indent outer =>
          have hle := hindents indent rfl
          have hne : indent ≠ start := fun he => hhead (by rw [he]; rfl)
          show ¬ start < indent + 1
          omega
    rw [if_neg fun hlt => hlevel (of_decide_eq_true hlt), if_neg hhead, if_neg hhead]
    simp [place, insertIdx_length]

/-- The token of a key is put before what was noted. -/
theorem insertKey_place (more : List Token) :
    ({ place rest index line column indents candidate allowsKey (tokens ++ more) with
        tokens := (tokens ++ more).toArray.insertIdxIfInBounds tokens.length .key } : Scan)
      = place rest index line column indents candidate allowsKey (tokens ++ .key :: more) := by
  rw [List.insertIdxIfInBounds_toArray, insertIdx_length]
  rfl

/-- **The colon turns what was noted into a key**, and opens a table if there is none at the
    column. -/
theorem value?_place {after : List Char} {start : Nat}
    (hindents : ∀ indent, indents.head? = some indent → indent ≤ start) (more : List Token)
    (isRequired : Bool) (start' : Nat) :
    (place (':' :: after) index line column indents
        (some ⟨tokens.length, start', line, start, isRequired⟩) allowsKey (tokens ++ more)).value? after
      = some (place after (index + 1) line (column + 1) (opened start indents) none false
          (tokens ++ opening start indents ++ .key :: more ++ [.value])) := by
  have hvalue : ∀ candidate : Candidate, candidate.place = tokens.length →
      (place (':' :: after) index line column indents (some candidate) allowsKey
          (tokens ++ more)).value? after
        = some ((({ (({ place (':' :: after) index line column indents (some candidate) allowsKey
              (tokens ++ more) with
              tokens := (tokens ++ more).toArray.insertIdxIfInBounds tokens.length .key }).openBlock
            candidate.column tokens.length .blockTable).setCandidate none with
              allowsKey := false } : Scan).advanceTo after).push .value) := by
    intro candidate hplace
    rw [← hplace]
    rfl
  rw [hvalue _ rfl, insertKey_place, openBlock_place hindents]
  show some (((place ([':'] ++ after) index line column (opened start indents) none false
    (tokens ++ opening start indents ++ .key :: more)).advanceTo after).push .value) = _
  rw [advanceTo_within (List.forall_mem_singleton.mpr rfl), push_place]
  rfl

/-- The colon after a key is fetched as one. -/
theorem fetch?_colon (scan : Scan) {after : List Char} (hafter : endsWord after = true) :
    scan.fetch? ':' after = scan.value? after := by
  have hmarker : startsMarker (':' :: after) = false := by simp [startsMarker]
  unfold fetch?
  dsimp only
  rw [if_neg fun hc => absurd hc.2 (by decide),
    if_neg fun hc => Bool.false_ne_true (hmarker.symm.trans hc.2), if_neg fun hc => absurd hc.1 (by decide),
    if_neg fun hc => absurd hc.1 (by decide), if_pos ⟨rfl, Or.inr hafter⟩]
  rfl

/-- **A key and its colon.** A scan that stands before them goes on after the colon in two steps, in
    the table of the key. -/
theorem tokensWithin?_key {scan : Scan} {key after : List Char} (hkey : IsPlain key)
    (hlength : key.length ≤ 1024) (hafter : endsWord after = true)
    (h : Stands scan column (key ++ ':' :: after) indents tokens)
    (hindents : ∀ indent, indents.head? = some indent → indent ≤ column) :
    ∃ index line, ∀ steps, scan.tokensWithin? (steps + 2)
      = (place after index line (column + key.length + 1) (opened column indents) none false
          (tokens ++ opening column indents
            ++ [.key, .scalar .plain (String.ofList key), .value])).tokensWithin? steps := by
  obtain ⟨c, rest, htext⟩ : ∃ c rest, key ++ ':' :: after = c :: rest := by
    cases key with
    | nil => exact ⟨_, _, rfl⟩
    | cons c tail => exact ⟨_, _, rfl⟩
  rw [htext] at h
  obtain ⟨index, line, hfirst⟩ := tokensWithin?_of_stands h hindents
  refine ⟨index + key.length + 1, line, fun steps => ?_⟩
  have hbreak : ∀ c ∈ key, isBreak c = false := fun c hc => (hkey.printable c hc).2
  have hahead : IsAhead (':' :: after) := fun c hc => by
    rw [← Option.some.inj hc]
    decide
  -- the key is noted and read as a scalar, and then the colon turns it into a key
  rw [hfirst, fetch?_place_plain hkey (by simp) htext (text?_key rfl hkey column hafter),
    Option.bind_some, advanceTo_within hbreak, push_place,
    tokensWithin?_within (skip_ahead hahead) ?_ ?_ rfl, fetch?_colon _ hafter]
  · have hvalue : (place (':' :: after) (index + key.length) line (column + key.length) indents
        (some ⟨tokens.length, index, line, column, indents.head? == some column⟩) false
        (tokens ++ [.scalar .plain (String.ofList key)])).value? after = _ :=
      value?_place hindents [.scalar .plain (String.ofList key)] _ index
    show Option.bind (value? _ after) _ = _
    rw [noted, if_pos rfl, hvalue, Option.bind_some, List.append_assoc _ (Token.key :: _) _]
    rfl
  · intro candidate hcandidate c hc
    obtain rfl := List.mem_singleton.mp hcandidate
    obtain rfl := Option.some.inj hc
    exact ⟨rfl, Nat.add_le_add_left hlength index⟩
  · exact fun indent hindent => (hindents indent hindent).trans (Nat.le_add_right _ _)

/-! ## Scalars -/

theorem isAhead_cons {c : Char} (hbreak : isBreak c = false) (hspace : isSpace c = false) (hhash : c ≠ '#')
    (rest : List Char) : IsAhead (c :: rest) := fun d hd => by
  rw [← Option.some.inj hd]
  exact ⟨hbreak, hspace, hhash⟩

theorem isAhead_plain {text : List Char} (h : IsPlain text) (rest : List Char) : IsAhead (text ++ rest) := by
  cases text with
  | nil => exact absurd rfl h.ne_nil
  | cons c tail =>
      obtain ⟨hindicator, -, hbreak, hspace⟩ := h.head
      exact isAhead_cons hbreak hspace (fun he => hindicator (he ▸ by decide)) _

/-- A place that is deeper than the innermost collection is deeper than no other one, and the next
    column is that of none. -/
theorem deeper_indents {indent : Nat} (hindent : indents.head? = some indent) (hcolumn : indent < column) :
    (∀ other, indents.head? = some other → other < column) ∧ indents.head? ≠ some (column + 1) := by
  have hlt : ∀ other, indents.head? = some other → other < column := fun other hother => by
    rw [← Option.some.inj (hindent.symm.trans hother)]
    exact hcolumn
  exact ⟨hlt, fun he => absurd (hlt _ he) (Nat.not_lt.mpr (Nat.le_succ column))⟩

/-- A value is fetched after the blank before it. -/
theorem tokensWithin?_value {c : Char} (hahead : IsAhead (c :: rest))
    (hindents : ∀ indent, indents.head? = some indent → indent < column) (steps : Nat) :
    (place (' ' :: c :: rest) index line column indents none allowsKey tokens).tokensWithin? (steps + 1)
      = ((place (c :: rest) (index + 1) line (column + 1) indents none allowsKey tokens).fetch? c rest).bind
          (tokensWithin? steps) := by
  refine tokensWithin?_within (skip_margin 1 hahead) ?_ ?_ rfl steps
  · intro candidate hcandidate d hd
    obtain rfl := List.mem_singleton.mp hcandidate
    exact nomatch hd
  · exact fun indent hindent => Nat.le_succ_of_le (Nat.le_of_lt (hindents indent hindent))

/-- **A value without quotes**, which ends before the next line. -/
theorem reaches_plain {text : List Char} (htext : IsPlain text) {indent width : Nat}
    (hindent : indents.head? = some indent) (hcolumn : indent < column) (hwidth : width ≤ indent)
    (hahead : IsAhead ahead) :
    (place (' ' :: (text ++ '\n' :: (margin width ++ ahead))) index line column indents none allowsKey
        tokens).Reaches 1 width ahead indents (tokens ++ [.scalar .plain (String.ofList text)]) := by
  obtain ⟨c, rest, hcons⟩ : ∃ c rest, text ++ '\n' :: (margin width ++ ahead) = c :: rest := by
    cases text with
    | nil => exact ⟨_, _, rfl⟩
    | cons c tail => exact ⟨_, _, rfl⟩
  have hstart : IsAhead (c :: rest) := hcons ▸ isAhead_plain htext _
  have hlevel : width < levelOf indents := by
    obtain ⟨outer, rfl⟩ := List.head?_eq_some_iff.mp hindent
    exact Nat.lt_succ_of_le hwidth
  have hread : PlainContext.text? ⟨false, levelOf indents⟩ (column + 1)
      (text ++ '\n' :: (margin width ++ ahead)) = some (String.ofList text, true, ahead) :=
    text?_line rfl htext (column + 1) (fun d hd => ⟨(hahead d hd).2.1, (hahead d hd).1⟩) hlevel
  obtain ⟨hlt, hdeep⟩ := deeper_indents hindent hcolumn
  let candidate := noted (index + 1) line (column + 1) indents allowsKey tokens
  obtain ⟨index', line', hline, hmoved⟩ : ∃ index' line', line < line' ∧
      (place (text ++ '\n' :: (margin width ++ ahead)) (index + 1) line (column + 1) indents candidate true
          tokens).advanceTo ahead = place ahead index' line' width indents candidate true tokens :=
    exists_advanceTo_line text width ahead
  have hstands : (place ahead index' line' width indents candidate true
      (tokens ++ [.scalar .plain (String.ofList text)])).Stands width ahead indents
      (tokens ++ [.scalar .plain (String.ofList text)]) := by
    refine stands_of_ahead hahead fun d hd => ?_
    obtain ⟨hrequired, hsame⟩ := noted_optional hdeep hd
    exact ⟨hrequired, by rw [hsame]; exact hline⟩
  refine hstands.reaches.after fun steps => ?_
  rw [hcons, tokensWithin?_value hstart hlt, fetch?_place_plain htext (by simp) hcons hread,
    Option.bind_some, hmoved, push_place]

/-- A text in single quotes is fetched as one. -/
theorem fetch?_singleQuote (scan : Scan) (rest : List Char) :
    scan.fetch? '\'' rest
      = (singleText? rest).bind fun (text, after) => scan.word? (.scalar .quoted text) after := by
  unfold fetch?
  dsimp only
  rw [if_neg fun hc => absurd hc.2 (by decide),
    if_neg fun hc => absurd hc.2 (by simp [startsMarker])]
  rfl

/-- A text in double quotes is fetched as one. -/
theorem fetch?_doubleQuote (scan : Scan) (rest : List Char) :
    scan.fetch? '"' rest
      = (doubleText? rest).bind fun (text, after) => scan.word? (.scalar .quoted text) after := by
  unfold fetch?
  dsimp only
  rw [if_neg fun hc => absurd hc.2 (by decide),
    if_neg fun hc => absurd hc.2 (by simp [startsMarker])]
  rfl

/-- **A value in quotes**, which is read up to its closing quote. -/
theorem reaches_quoted {quote : Char} (hquote : quote = '\'' ∨ quote = '"') {body : List Char}
    {content : String} {indent width : Nat}
    (hfetch : ∀ scan : Scan, scan.fetch? quote (body ++ '\n' :: (margin width ++ ahead))
      = scan.word? (.scalar .quoted content) ('\n' :: (margin width ++ ahead)))
    (hindent : indents.head? = some indent) (hcolumn : indent < column) (hahead : IsAhead ahead) :
    (place (' ' :: quote :: (body ++ '\n' :: (margin width ++ ahead))) index line column indents none
        allowsKey tokens).Reaches 1 width ahead indents (tokens ++ [.scalar .quoted content]) := by
  obtain ⟨hlt, hdeep⟩ := deeper_indents hindent hcolumn
  have hstart : IsAhead (quote :: (body ++ '\n' :: (margin width ++ ahead))) := by
    rcases hquote with rfl | rfl <;> exact isAhead_cons (by decide) (by decide) (by decide) _
  let candidate := noted (index + 1) line (column + 1) indents allowsKey tokens
  obtain ⟨index', line', column', hline, hmoved⟩ : ∃ index' line' column', line ≤ line' ∧
      (place (quote :: body ++ '\n' :: (margin width ++ ahead)) (index + 1) line (column + 1) indents
          candidate false tokens).advanceTo ('\n' :: (margin width ++ ahead))
        = place ('\n' :: (margin width ++ ahead)) index' line' column' indents candidate false tokens :=
    exists_advanceTo (quote :: body) ('\n' :: (margin width ++ ahead))
  have hword : (place (quote :: (body ++ '\n' :: (margin width ++ ahead))) (index + 1) line (column + 1)
        indents none allowsKey tokens).word? (.scalar .quoted content) ('\n' :: (margin width ++ ahead))
      = some (place ('\n' :: (margin width ++ ahead)) index' line' column' indents candidate false
          (tokens ++ [.scalar .quoted content])) := by
    rw [← push_place, ← hmoved, word?, noteCandidate?_place]
    rfl
  have hstands : (place ('\n' :: (margin width ++ ahead)) index' line' column' indents candidate false
      (tokens ++ [.scalar .quoted content])).Stands width ahead indents
      (tokens ++ [.scalar .quoted content]) := by
    refine stands_of_line hahead fun d hd => ?_
    obtain ⟨hrequired, hsame⟩ := noted_optional hdeep hd
    exact ⟨hrequired, by rw [hsame]; exact hline⟩
  refine hstands.reaches.after fun steps => ?_
  rw [tokensWithin?_value hstart hlt, hfetch, hword, Option.bind_some]

/-! ## Items and empty collections -/

/-- A dash before a word is fetched as one. -/
theorem fetch?_dash (scan : Scan) {after : List Char} (hafter : endsWord after = true) :
    scan.fetch? '-' after = scan.dash? after := by
  have hmarker : startsMarker ('-' :: after) = false := by
    cases after with
    | nil => rfl
    | cons c after =>
        have hne : c ≠ '-' := fun he => by
          rw [he] at hafter
          exact absurd (show (isSpace '-' || isBreak '-') = true from hafter) (by decide)
        simp [startsMarker, hne]
  unfold fetch?
  dsimp only
  rw [if_neg fun hc => absurd hc.2 (by decide),
    if_neg fun hc => Bool.false_ne_true (hmarker.symm.trans hc.2), if_pos ⟨rfl, hafter⟩]
  rfl

/-- **The dash of an item.** An item that stands at the column of the table around its list opens no
    collection. -/
theorem tokensWithin?_dash {scan : Scan} {after : List Char} (hafter : endsWord after = true)
    (h : Stands scan column ('-' :: after) indents tokens) (hindents : indents.head? = some column) :
    ∃ index line, ∀ steps, scan.tokensWithin? (steps + 1)
      = (place after index line (column + 1) indents none true (tokens ++ [.dash])).tokensWithin?
          steps := by
  obtain ⟨index, line, hfirst⟩ := tokensWithin?_of_stands h fun indent hindent =>
    Nat.le_of_eq (Option.some.inj (hindent.symm.trans hindents))
  have hopen : (place ('-' :: after) index line column indents none true tokens).openBlock column
      tokens.length .blockList = place ('-' :: after) index line column indents none true tokens := by
    obtain ⟨outer, rfl⟩ := List.head?_eq_some_iff.mp hindents
    unfold openBlock
    rw [if_pos]
    exact Bool.or_eq_true_iff.mpr (Or.inr (decide_eq_true (Nat.lt_succ_self column)))
  have hdash : (place ('-' :: after) index line column indents none true tokens).dash? after
      = some (((place ('-' :: after) index line column indents none true tokens).advanceTo after).push
          .dash) := by
    unfold dash?
    rw [if_neg (by simp [place])]
    show Option.map _ ((openBlock _ column tokens.length .blockList).dropCandidate?) = _
    rw [hopen]
    rfl
  refine ⟨index + 1, line, fun steps => ?_⟩
  rw [hfirst, fetch?_dash _ hafter, hdash, Option.bind_some]
  have hmoved : (place ('-' :: after) index line column indents none true tokens).advanceTo after
      = place after (index + 1) line (column + 1) indents none true tokens :=
    advanceTo_within (List.forall_mem_singleton.mpr rfl)
  rw [hmoved, push_place]

/-- The brackets around the items of a list, and around the entries of a table. -/
inductive IsBrackets : Char → Char → Token → Token → Prop
  | list : IsBrackets '[' ']' .openList .closeList
  | table : IsBrackets '\x7b' '\x7d' .openTable .closeTable

variable {first second : Char} {opener closer : Token}

theorem IsBrackets.fetch?_first (h : IsBrackets first second opener closer) (scan : Scan)
    (rest : List Char) : scan.fetch? first rest = scan.openBracket? opener rest := by
  cases h <;>
  · unfold fetch?
    dsimp only
    rw [if_neg fun hc => absurd hc.2 (by decide), if_neg fun hc => absurd hc.2 (by simp [startsMarker])]
    rfl

theorem IsBrackets.fetch?_second (h : IsBrackets first second opener closer) (scan : Scan)
    (rest : List Char) : scan.fetch? second rest = scan.closeBracket? closer rest := by
  cases h <;>
  · unfold fetch?
    dsimp only
    rw [if_neg fun hc => absurd hc.2 (by decide), if_neg fun hc => absurd hc.2 (by simp [startsMarker])]
    rfl

theorem IsBrackets.within (h : IsBrackets first second opener closer) (rest : List Char) :
    IsAhead (first :: rest) ∧ IsAhead (second :: rest) ∧ isBreak first = false ∧ isBreak second = false := by
  cases h <;>
  exact ⟨isAhead_cons (by decide) (by decide) (by decide) rest,
    isAhead_cons (by decide) (by decide) (by decide) rest, by decide, by decide⟩

/-- **A list or table without anything in it** takes two steps. -/
theorem reaches_brackets (hbrackets : IsBrackets first second opener closer) {indent width : Nat}
    (hindent : indents.head? = some indent) (hcolumn : indent < column) (hahead : IsAhead ahead) :
    (place (' ' :: first :: second :: '\n' :: (margin width ++ ahead)) index line column indents none
        allowsKey tokens).Reaches 2 width ahead indents (tokens ++ [opener, closer]) := by
  obtain ⟨hlt, hdeep⟩ := deeper_indents hindent hcolumn
  obtain ⟨hfirst, -, hbreak, -⟩ := hbrackets.within (second :: '\n' :: (margin width ++ ahead))
  obtain ⟨-, hsecond, -, hbreak'⟩ := hbrackets.within ('\n' :: (margin width ++ ahead))
  let candidate := noted (index + 1) line (column + 1) indents allowsKey tokens
  -- between the brackets there is nothing that could be a key
  let inside : Scan :=
    { place (second :: '\n' :: (margin width ++ ahead)) (index + 1 + 1) line (column + 1 + 1) indents none
        true (tokens ++ [opener]) with
      candidates := [none, candidate] }
  have hopen : (place (first :: second :: '\n' :: (margin width ++ ahead)) (index + 1) line (column + 1)
      indents none allowsKey tokens).openBracket? opener (second :: '\n' :: (margin width ++ ahead))
        = some inside := by
    rw [openBracket?, noteCandidate?_place, Option.map_some,
      advanceTo_append _ (show _ = [first] ++ _ from rfl), pass_within _ _ _ _ _ (by simpa using hbreak)]
    simp [push, place, inside, candidate]
  have hclose : inside.closeBracket? closer ('\n' :: (margin width ++ ahead))
      = some (place ('\n' :: (margin width ++ ahead)) (index + 1 + 1 + 1) line (column + 1 + 1 + 1) indents
          candidate false (tokens ++ [opener, closer])) := by
    have hdrop : inside.dropCandidate? = some inside := rfl
    rw [closeBracket?, hdrop, Option.map_some]
    dsimp only
    rw [advanceTo_append _ (show _ = [second] ++ _ from rfl),
      pass_within _ _ _ _ _ (by simpa using hbreak')]
    simp [push, place, inside, isInside]
  have hstands : (place ('\n' :: (margin width ++ ahead)) (index + 1 + 1 + 1) line (column + 1 + 1 + 1)
      indents candidate false (tokens ++ [opener, closer])).Stands width ahead indents
      (tokens ++ [opener, closer]) := by
    refine stands_of_line hahead fun d hd => ?_
    obtain ⟨hrequired, hsame⟩ := noted_optional hdeep hd
    exact ⟨hrequired, by rw [hsame]⟩
  refine hstands.reaches.after fun steps => ?_
  rw [tokensWithin?_value hfirst hlt, hbrackets.fetch?_first, hopen, Option.bind_some,
    tokensWithin?_within (skip_ahead hsecond) ?_ ?_ rfl, hbrackets.fetch?_second, hclose]
  · rfl
  · intro other hother d hd
    rcases List.mem_cons.mp hother with rfl | hother
    · exact nomatch hd
    · obtain rfl := List.mem_singleton.mp hother
      obtain ⟨hline, hindex⟩ := noted_place hd
      exact ⟨hline, by rw [hindex]; exact Nat.add_le_add_left (by decide) (index + 1)⟩
  · exact fun other hother => Nat.le_add_right_of_le (Nat.le_succ_of_le (Nat.le_of_lt (hlt other hother)))

end Scan

end SchemaForge.Document.Yaml
