import Mathlib.Data.List.Basic
import Mathlib.Data.List.Infix
import SchemaForge.Proofs.Text.Run
import SchemaForge.TypeScript.Import.Declared

/-!
# `Proofs.Import.Declared` — where the first declaration of a text stands

`declaredAt?` is a scanner; `IsHead` is the grammar of what it reads up to the opening brace. The
two agree in both directions, so what the scanner does at a place can be read off the grammar. A
head is never a proper end of a longer head: hence, before the first opening brace of a text, there
is only one place at which a declaration can start.

## Contents
- **The grammar.** `IsHead`, and `declaredAt?_eq_some_iff`.
- **One place.** `IsHead.eq_nil_of_append`: a head is read backwards from its brace in one way.
- **The first declaration.** `find?_append`, the declaration after a text without a brace, and
  `exists_of_findFrom?`, where any declaration stands that is found.
- **Other braces.** `findFrom?_brace`, past a brace at which no head ends, and
  `findFrom?_eq_none`, a text without a brace.
-/

namespace SchemaForge.TypeScript.Import

open Text

/-! ## The grammar of a head -/

/-- What may stand between a name and the opening brace: blanks, perhaps with an equals sign. -/
inductive IsGap : List Char → Prop where
  | blanks {gap : List Char} (h : ∀ c ∈ gap, isBlank c = true) : IsGap gap
  | equals {before after : List Char} (hb : ∀ c ∈ before, isBlank c = true)
      (ha : ∀ c ∈ after, isBlank c = true) : IsGap (before ++ '=' :: after)

/-- A word that starts a declaration. -/
def IsKeyword (word : List Char) : Prop := word = "interface".toList ∨ word = "type".toList

/-- What stands before the opening brace of a declaration of a name, from its first word on. -/
inductive IsHead (name : List Char) : List Char → Prop where
  | intro {word blanks gap : List Char} (hword : IsKeyword word)
      (hblanks : ∀ c ∈ blanks, isBlank c = true) (hne : blanks ≠ [])
      (hname : ∀ c ∈ name, isWord c = true) (hname_ne : name ≠ []) (hgap : IsGap gap) :
      IsHead name (word ++ (blanks ++ (name ++ gap)))

/-! ## Characters that end a run -/

theorem isWord_equals : isWord '=' = false := by decide

theorem isWord_brace : isWord '\x7b' = false := by decide

theorem isBlank_equals : isBlank '=' = false := by decide

theorem isBlank_brace : isBlank '\x7b' = false := by decide

/-- A name ends where its gap or the opening brace starts. -/
theorem IsGap.stopsAt_isWord {gap : List Char} (h : IsGap gap) (rest : List Char) :
    StopsAt isWord (gap ++ '\x7b' :: rest) := by
  cases h with
  | blanks h =>
      cases gap with
      | nil => exact stopsAt_cons isWord_brace
      | cons c gap => exact stopsAt_cons (isWord_eq_false_of_isBlank (h c (by simp)))
  | @equals before after hb ha =>
      cases before with
      | nil => exact stopsAt_cons isWord_equals
      | cons c before => exact stopsAt_cons (isWord_eq_false_of_isBlank (hb c (by simp)))

/-- After the blanks, an equals sign and blanks again, the opening brace is reached. -/
theorem IsGap.afterEquals_trimStart {gap : List Char} (h : IsGap gap) (rest : List Char) :
    afterEquals (trimStart (gap ++ '\x7b' :: rest)) = '\x7b' :: rest := by
  cases h with
  | blanks h => rw [trimStart, dropWhile_run h (stopsAt_cons isBlank_brace)]; rfl
  | @equals before after hb ha =>
      rw [List.append_assoc, List.cons_append, trimStart,
        dropWhile_run hb (stopsAt_cons isBlank_equals)]
      show trimStart (after ++ '\x7b' :: rest) = '\x7b' :: rest
      rw [trimStart, dropWhile_run ha (stopsAt_cons isBlank_brace)]

/-! ## The scanner reads the grammar -/

theorem afterKeyword?_append {word : List Char} (h : IsKeyword word) (rest : List Char) :
    afterKeyword? (word ++ rest) = some rest := by
  rcases h with rfl | rfl <;> rfl

theorem exists_of_afterKeyword? {text rest : List Char} (h : afterKeyword? text = some rest) :
    ∃ word, IsKeyword word ∧ text = word ++ rest := by
  rcases Option.or_eq_some_iff.mp h with h | ⟨-, h⟩
  · exact ⟨_, Or.inl rfl, (List.append_eq_of_isPrefixOf?_eq_some h).symm⟩
  · exact ⟨_, Or.inr rfl, (List.append_eq_of_isPrefixOf?_eq_some h).symm⟩

theorem body?_append {body rest : List Char} (hne : body ≠ []) (hbody : '\x7d' ∉ body) :
    body? (body ++ '\x7d' :: rest) = some body := by
  have hrun : ∀ c ∈ body, decide (c ≠ '\x7d') = true := by
    intro c hc
    exact decide_eq_true fun he => hbody (he ▸ hc)
  have stop : StopsAt (fun c => decide (c ≠ '\x7d')) ('\x7d' :: rest) := stopsAt_cons (by simp)
  unfold body?
  rw [takeWhile_run hrun stop, dropWhile_run hrun stop]
  simp [hne]

theorem exists_of_body? {text body : List Char} (h : body? text = some body) :
    ∃ rest, text = body ++ '\x7d' :: rest ∧ body ≠ [] ∧ '\x7d' ∉ body := by
  unfold body? at h
  dsimp only at h
  split at h
  · exact absurd h (by simp)
  · rename_i hne
    rw [not_or] at hne
    have hbody := Option.some.inj h
    have hsplit := List.takeWhile_append_dropWhile (p := fun c => decide (c ≠ '\x7d')) (l := text)
    cases hdrop : text.dropWhile (fun c => decide (c ≠ '\x7d')) with
    | nil => exact absurd hdrop hne.2
    | cons c rest =>
        have hc : c = '\x7d' := by
          have := stopsAt_dropWhile (p := fun c => decide (c ≠ '\x7d')) text c (by rw [hdrop]; rfl)
          simpa using this
        rw [hdrop, hbody, hc] at hsplit
        refine ⟨rest, hsplit.symm, hbody ▸ hne.1, fun hmem => ?_⟩
        have := List.mem_takeWhile_imp (hbody ▸ hmem : '\x7d' ∈ text.takeWhile _)
        simp at this

/-- The blanks at the front of a text, and what is left without them. -/
theorem exists_blanks (text : List Char) :
    ∃ blanks, (∀ c ∈ blanks, isBlank c = true) ∧ text = blanks ++ trimStart text :=
  ⟨text.takeWhile isBlank, fun _ hc => List.mem_takeWhile_imp hc,
    List.takeWhile_append_dropWhile.symm⟩

theorem exists_gap {text inner : List Char} (h : afterEquals (trimStart text) = '\x7b' :: inner) :
    ∃ gap, IsGap gap ∧ text = gap ++ '\x7b' :: inner := by
  obtain ⟨before, hbefore, htext⟩ := exists_blanks text
  by_cases heq : (trimStart text).head? = some '='
  · obtain ⟨rest, hrest⟩ := List.head?_eq_some_iff.mp heq
    obtain ⟨after, hafter, hsplit⟩ := exists_blanks rest
    rw [hrest] at h htext
    have hinner : trimStart rest = '\x7b' :: inner := h
    refine ⟨before ++ '=' :: after, .equals hbefore hafter, ?_⟩
    rw [htext, hsplit, hinner, List.append_assoc, List.cons_append]
  · have hinner : trimStart text = '\x7b' :: inner := by
      rw [← h]
      unfold afterEquals
      split
      · rename_i rest hrest
        exact absurd (by rw [hrest]; rfl) heq
      · rfl
    exact ⟨before, .blanks hbefore, by rw [htext, hinner]⟩

/-- **The scanner reads exactly the grammar**: a head, an opening brace, and a body that is not empty
    and holds no closing brace, up to the closing brace. -/
theorem declaredAt?_eq_some_iff {text : List Char} {declared : Declared} :
    declaredAt? text = some declared ↔
      ∃ head rest, text = head ++ '\x7b' :: (declared.body ++ '\x7d' :: rest)
        ∧ IsHead declared.name head ∧ declared.body ≠ [] ∧ '\x7d' ∉ declared.body := by
  constructor
  · -- every step of the scanner gives a piece of the text; together they are a head and a body
    intro h
    unfold declaredAt? at h
    obtain ⟨rest, hkey, h⟩ := Option.bind_eq_some_iff.mp h
    obtain ⟨word, hword, htext⟩ := exists_of_afterKeyword? hkey
    dsimp only at h
    split at h
    · exact absurd h (by simp)
    rename_i hne
    rw [not_or] at hne
    split at h
    · rename_i inner hgap
      obtain ⟨body, hbody, hdecl⟩ := Option.map_eq_some_iff.mp h
      obtain ⟨gap, hisGap, hafter⟩ := exists_gap hgap
      obtain ⟨after, hinner, hbody_ne, hbrace⟩ := exists_of_body? hbody
      obtain ⟨blanks, hblanks, hrest⟩ := exists_blanks rest
      have hstart : (trimStart rest).takeWhile isWord ++ (gap ++ '\x7b' :: inner)
          = trimStart rest := by
        rw [← hafter, List.takeWhile_append_dropWhile]
      have hblanks_ne : blanks ≠ [] := by
        intro he
        rw [he, List.nil_append] at hrest
        exact hne.1 hrest.symm
      rw [← hdecl]
      refine ⟨word ++ (blanks ++ ((trimStart rest).takeWhile isWord ++ gap)), after, ?_,
        .intro hword hblanks hblanks_ne (fun _ hc => List.mem_takeWhile_imp hc) hne.2 hisGap,
        hbody_ne, hbrace⟩
      simp only [List.append_assoc]
      rw [htext, ← hinner, hstart, ← hrest]
    · exact absurd h (by simp)
  · -- every scan stops where the next piece of the grammar starts
    rintro ⟨head, rest, rfl, hhead, hbody_ne, hbrace⟩
    obtain ⟨name, body⟩ := declared
    dsimp only at hhead hbody_ne hbrace
    cases hhead with
    | @intro word blanks gap hword hblanks hne hname hname_ne hgap =>
        have hstart : trimStart (blanks ++ (name ++ (gap ++ '\x7b' :: (body ++ '\x7d' :: rest))))
            = name ++ (gap ++ '\x7b' :: (body ++ '\x7d' :: rest)) := by
          refine dropWhile_run hblanks ?_
          cases name with
          | nil => exact absurd rfl hname_ne
          | cons c name => exact stopsAt_cons (isBlank_eq_false_of_isWord (hname c (by simp)))
        have hblanks_gone : name ++ (gap ++ '\x7b' :: (body ++ '\x7d' :: rest))
            ≠ blanks ++ (name ++ (gap ++ '\x7b' :: (body ++ '\x7d' :: rest))) := by
          intro he
          exact hne (List.self_eq_append_left.mp he)
        simp only [List.append_assoc]
        unfold declaredAt?
        rw [afterKeyword?_append hword]
        show (if _ ∨ _ then none else _) = _
        rw [hstart, takeWhile_run hname (hgap.stopsAt_isWord _),
          dropWhile_run hname (hgap.stopsAt_isWord _), hgap.afterEquals_trimStart,
          if_neg (not_or.mpr ⟨hblanks_gone, hname_ne⟩)]
        show (body? (body ++ '\x7d' :: rest)).map _ = _
        rw [body?_append hbody_ne hbrace]
        rfl

/-! ## A head is read backwards in one way -/

/-- Reading backwards, the last run of a class is found in one way only. -/
theorem append_run_inj {p : Char → Bool} {front front' run run' : List Char}
    (h : front ++ run = front' ++ run') (hrun : ∀ c ∈ run, p c = true)
    (hrun' : ∀ c ∈ run', p c = true) (stop : StopsAt p front.reverse)
    (stop' : StopsAt p front'.reverse) : front = front' ∧ run = run' := by
  have hrev : run.reverse ++ front.reverse = run'.reverse ++ front'.reverse := by
    rw [← List.reverse_append, ← List.reverse_append, h]
  obtain ⟨hr, hf⟩ := run_append_inj hrev (by simpa using hrun) (by simpa using hrun') stop stop'
  exact ⟨List.reverse_inj.mp hf, List.reverse_inj.mp hr⟩

/-- A text whose last part has no character of a class stops at once when read backwards. -/
theorem stopsAt_reverse_append {p : Char → Bool} {back : List Char} (hne : back ≠ [])
    (h : ∀ c ∈ back, p c = false) (front : List Char) : StopsAt p (front ++ back).reverse := by
  intro c hc
  rw [List.head?_reverse, getLast?_append_right hne] at hc
  exact h c (List.mem_of_getLast? hc)

theorem stopsAt_reverse {p : Char → Bool} {text : List Char} (hne : text ≠ [])
    (h : ∀ c ∈ text, p c = false) : StopsAt p text.reverse := by
  exact stopsAt_reverse_append hne h []

theorem isWord_of_isKeyword {word : List Char} (h : IsKeyword word) : ∀ c ∈ word, isWord c = true := by
  rcases h with rfl | rfl
  · exact List.all_eq_true.mp (by decide)
  · exact List.all_eq_true.mp (by decide)

/-- No keyword is the end of another one. -/
theorem IsKeyword.eq_nil_of_append {front word : List Char} (h : IsKeyword word)
    (h' : IsKeyword (front ++ word)) : front = [] := by
  have hnot : ¬ "type".toList <:+ "interface".toList := by decide
  have hnot' : ¬ "interface".toList <:+ "type".toList := by decide
  rcases h with rfl | rfl <;> rcases h' with h' | h'
  · exact List.append_left_eq_self.mp h'
  · exact absurd ⟨front, h'⟩ hnot'
  · exact absurd ⟨front, h'⟩ hnot
  · exact List.append_left_eq_self.mp h'

/-- Reading backwards over a gap, the name before it ends in one place only. -/
theorem IsGap.append_inj {front front' name name' gap gap' : List Char}
    (h : (front ++ name) ++ gap = (front' ++ name') ++ gap') (hgap : IsGap gap) (hgap' : IsGap gap')
    (hname : ∀ c ∈ name, isWord c = true) (hne : name ≠ [])
    (hname' : ∀ c ∈ name', isWord c = true) (hne' : name' ≠ []) :
    front ++ name = front' ++ name' := by
  have stop : StopsAt isBlank (front ++ name).reverse :=
    stopsAt_reverse_append hne (fun c hc => isBlank_eq_false_of_isWord (hname c hc)) front
  have stop' : StopsAt isBlank (front' ++ name').reverse :=
    stopsAt_reverse_append hne' (fun c hc => isBlank_eq_false_of_isWord (hname' c hc)) front'
  -- a text that ends with a word does not end with an equals sign
  have last_word : ∀ {f n b : List Char}, (∀ c ∈ n, isWord c = true) → n ≠ [] →
      f ++ n = b ++ ['='] → False := by
    intro f n b hn hnil he
    have hlast := congrArg List.getLast? he
    rw [getLast?_append_right hnil, List.getLast?_concat] at hlast
    have := hn '=' (List.mem_of_getLast? hlast)
    rw [isWord_equals] at this
    exact absurd this (by simp)
  have split_equals : ∀ f b a : List Char, f ++ (b ++ '=' :: a) = ((f ++ b) ++ ['=']) ++ a := by
    intro f b a
    simp
  have stop_equals : ∀ f : List Char, StopsAt isBlank (f ++ ['=']).reverse := fun f =>
    stopsAt_reverse_append (by simp) (by simp [isBlank_equals]) f
  cases hgap with
  | blanks hb =>
      cases hgap' with
      | blanks hb' => exact (append_run_inj h hb hb' stop stop').1
      | equals hb' ha' =>
          rw [split_equals] at h
          exact (last_word hname hne (append_run_inj h hb ha' stop (stop_equals _)).1).elim
  | equals hb ha =>
      rw [split_equals] at h
      cases hgap' with
      | blanks hb' =>
          exact (last_word hname' hne' (append_run_inj h ha hb' (stop_equals _) stop').1.symm).elim
      | equals hb' ha' =>
          rw [split_equals] at h
          have hb_eq := (append_run_inj h ha ha' (stop_equals _) (stop_equals _)).1
          exact (append_run_inj (List.append_inj_left' hb_eq rfl) hb hb' stop stop').1

/-- **A head is no proper end of another head**: reading backwards from the brace, the gap, the name,
    the blanks and the keyword are each found in one way only. -/
theorem IsHead.eq_nil_of_append {name name' front head : List Char} (h : IsHead name head)
    (h' : IsHead name' (front ++ head)) : front = [] := by
  generalize hwhole : front ++ head = whole at h'
  cases h with
  | @intro word blanks gap hword hblanks hblanks_ne hname hname_ne hgap =>
  cases h' with
  | @intro word' blanks' gap' hword' hblanks' hblanks_ne' hname' hname_ne' hgap' =>
      -- from the right: gaps, names, blanks, keywords
      have hgaps : ((front ++ word ++ blanks) ++ name) ++ gap
          = ((word' ++ blanks') ++ name') ++ gap' := by
        simpa only [List.append_assoc] using hwhole
      have hnames := IsGap.append_inj hgaps hgap hgap' hname hname_ne hname' hname_ne'
      have hstarts := (append_run_inj hnames hname hname'
        (stopsAt_reverse_append hblanks_ne
          (fun c hc => isWord_eq_false_of_isBlank (hblanks c hc)) _)
        (stopsAt_reverse_append hblanks_ne'
          (fun c hc => isWord_eq_false_of_isBlank (hblanks' c hc)) _)).1
      have not_blank : ∀ {w : List Char}, IsKeyword w → ∀ c ∈ w, isBlank c = false :=
        fun hw c hc => isBlank_eq_false_of_isWord (isWord_of_isKeyword hw c hc)
      have word_ne : ∀ {w : List Char}, IsKeyword w → w ≠ [] := by
        rintro w (rfl | rfl) <;> decide
      have hwords := (append_run_inj hstarts hblanks hblanks'
        (stopsAt_reverse_append (word_ne hword) (not_blank hword) front)
        (stopsAt_reverse (word_ne hword') (not_blank hword'))).1
      exact hword.eq_nil_of_append (hwords ▸ hword')

/-! ## The first declaration -/

/-- A head holds no opening brace. -/
theorem IsHead.brace_not_mem {name head : List Char} (h : IsHead name head) : '\x7b' ∉ head := by
  have not_blank : ∀ {run : List Char}, (∀ c ∈ run, isBlank c = true) → '\x7b' ∉ run := by
    intro run hrun hmem
    have := hrun _ hmem
    rw [isBlank_brace] at this
    exact absurd this (by simp)
  have not_word : ∀ {run : List Char}, (∀ c ∈ run, isWord c = true) → '\x7b' ∉ run := by
    intro run hrun hmem
    have := hrun _ hmem
    rw [isWord_brace] at this
    exact absurd this (by simp)
  cases h with
  | intro hword hblanks hne hname hname_ne hgap =>
      simp only [List.mem_append, not_or]
      refine ⟨not_word (isWord_of_isKeyword hword), not_blank hblanks, not_word hname, ?_⟩
      cases hgap with
      | blanks hb => exact not_blank hb
      | equals hb ha =>
          simp only [List.mem_append, List.mem_cons, not_or]
          exact ⟨not_blank hb, by decide, not_blank ha⟩

/-- Before its first opening brace a text has a declaration only where a head ends at that brace. -/
theorem declaredAt?_eq_none {name front head rest : List Char} (hhead : IsHead name head)
    (hfront : '\x7b' ∉ front) (hne : front ≠ []) :
    declaredAt? (front ++ (head ++ '\x7b' :: rest)) = none := by
  refine Option.eq_none_iff_forall_ne_some.mpr fun declared hdecl => ?_
  obtain ⟨head', rest', htext, hhead', -, -⟩ := declaredAt?_eq_some_iff.mp hdecl
  rw [← List.append_assoc] at htext
  have hmem : '\x7b' ∉ front ++ head := by
    rw [List.mem_append, not_or]
    exact ⟨hfront, hhead.brace_not_mem⟩
  have heq := (mark_append_inj htext hmem hhead'.brace_not_mem).1
  exact hne (hhead.eq_nil_of_append (heq ▸ hhead'))

/-- Whether a word can start after a text: it is empty or ends with no word character. -/
def EndsOutsideWord (text : List Char) : Prop := ∀ c, text.getLast? = some c → isWord c = false

/-- **The first declaration of a text** whose part before the head has no opening brace and does not
    end inside a word. -/
theorem find?_append {name front head body : List Char} (rest : List Char) (hhead : IsHead name head)
    (hfront : '\x7b' ∉ front) (hend : EndsOutsideWord front) (hbody : body ≠ [])
    (hbrace : '\x7d' ∉ body) :
    Declared.find? (front ++ (head ++ '\x7b' :: (body ++ '\x7d' :: rest))) = some ⟨name, body⟩ := by
  have here : declaredAt? (head ++ '\x7b' :: (body ++ '\x7d' :: rest)) = some ⟨name, body⟩ :=
    declaredAt?_eq_some_iff.mpr ⟨head, rest, rfl, hhead, hbody, hbrace⟩
  have start : ∀ text declared, declaredAt? text = some declared →
      findFrom? false text = some declared := by
    intro text declared h
    cases text with
    | nil =>
        have hnone : declaredAt? [] = none := rfl
        exact absurd (hnone.symm.trans h) (by simp)
    | cons c text => simp [findFrom?, h]
  -- induction on the part before the head; only its last character decides whether a word can start
  suffices walk : ∀ (front : List Char) (inside : Bool), '\x7b' ∉ front → EndsOutsideWord front →
      (front = [] → inside = false) →
      findFrom? inside (front ++ (head ++ '\x7b' :: (body ++ '\x7d' :: rest))) = some ⟨name, body⟩ from
    walk front false hfront hend fun _ => rfl
  intro front
  induction front with
  | nil =>
      intro inside _ _ hinside
      rw [hinside rfl]
      exact start _ _ here
  | cons c front ih =>
      intro inside hfront hend _
      have hnone : (if inside then none else
          declaredAt? (c :: front ++ (head ++ '\x7b' :: (body ++ '\x7d' :: rest)))) = none := by
        rw [declaredAt?_eq_none hhead hfront (by simp), ite_self]
      rw [List.cons_append, findFrom?]
      rw [List.cons_append] at hnone
      rw [hnone]
      refine ih (isWord c) (fun hmem => hfront (List.mem_cons_of_mem _ hmem)) ?_ ?_
      · intro d hd
        exact hend d (by rw [List.getLast?_cons, hd]; rfl)
      · intro hnil
        exact hend c (by rw [hnil]; rfl)

/-- **A declaration that is found stands somewhere in the text**: a head, and a body up to its first
    closing brace. -/
theorem exists_of_findFrom? {insideWord : Bool} {text : List Char} {declared : Declared}
    (h : findFrom? insideWord text = some declared) :
    ∃ front head rest, text = front ++ (head ++ '\x7b' :: (declared.body ++ '\x7d' :: rest))
      ∧ IsHead declared.name head ∧ declared.body ≠ [] ∧ '\x7d' ∉ declared.body := by
  induction text generalizing insideWord with
  | nil => exact nomatch h
  | cons c text ih =>
      rw [findFrom?] at h
      split at h
      · next found hfound =>
          obtain rfl := Option.some.inj h
          have hhere : declaredAt? (c :: text) = some found := by
            cases insideWord with
            | true  => exact nomatch hfound
            | false => exact hfound
          obtain ⟨head, rest, htext, hdeclared⟩ := declaredAt?_eq_some_iff.mp hhere
          exact ⟨[], head, rest, htext, hdeclared⟩
      · obtain ⟨front, head, rest, htext, hdeclared⟩ := ih h
        exact ⟨c :: front, head, rest, by rw [htext]; rfl, hdeclared⟩

/-- The name in a head is a word. -/
theorem IsHead.isWord_name {name head : List Char} (h : IsHead name head) :
    name ≠ [] ∧ ∀ c ∈ name, isWord c = true := by
  cases h with
  | intro hword hblanks hne hname hname_ne hgap => exact ⟨hname_ne, hname⟩

/-! ## Braces that open no body -/

/-- No head of a declaration stands at the end of a text. -/
def EndsNoHead (text : List Char) : Prop := ∀ name head, IsHead name head → ¬ head <:+ text

/-- A head ends with a word character, a blank or an equals sign. -/
theorem IsHead.getLast? {name head : List Char} (h : IsHead name head) {c : Char}
    (hc : head.getLast? = some c) : isWord c = true ∨ isBlank c = true ∨ c = '=' := by
  cases h with
  | @intro word blanks gap hword hblanks hne hname hname_ne hgap =>
      have hback : (name ++ gap).getLast? = some c := by
        rw [← List.append_assoc, getLast?_append_right (by simp [hname_ne])] at hc
        exact hc
      rcases List.mem_append.mp (List.mem_of_getLast? hback) with hmem | hmem
      · exact Or.inl (hname c hmem)
      · cases hgap with
        | blanks hb => exact Or.inr (Or.inl (hb c hmem))
        | equals hb ha =>
            rcases List.mem_append.mp hmem with hmem | hmem
            · exact Or.inr (Or.inl (hb c hmem))
            · rcases List.mem_cons.mp hmem with rfl | hmem
              · exact Or.inr (Or.inr rfl)
              · exact Or.inr (Or.inl (ha c hmem))

theorem IsHead.ne_nil {name head : List Char} (h : IsHead name head) : head ≠ [] := by
  cases h with
  | intro hword hblanks hne hname hname_ne hgap => simp [hne]

theorem endsNoHead_of_getLast? {text : List Char} {c : Char} (h : text.getLast? = some c)
    (hc : ¬ (isWord c = true ∨ isBlank c = true ∨ c = '=')) : EndsNoHead text := by
  rintro name head hhead ⟨front, rfl⟩
  rw [getLast?_append_right hhead.ne_nil] at h
  exact hc (hhead.getLast? h)

/-- No head ends where the scanner finds none from any place before. -/
theorem endsNoHead_of_tails {text : List Char}
    (h : ∀ tail ∈ text.tails, declaredAt? (tail ++ ['\x7b', ' ', '\x7d']) = none) :
    EndsNoHead text := by
  intro name head hhead hsuffix
  have hread : declaredAt? (head ++ ['\x7b', ' ', '\x7d']) = some ⟨name, [' ']⟩ :=
    declaredAt?_eq_some_iff.mpr ⟨head, [], rfl, hhead, by simp, by simp⟩
  rw [h head ((List.mem_tails head text).mpr hsuffix)] at hread
  exact nomatch hread

theorem EndsNoHead.tail {c : Char} {text : List Char} (h : EndsNoHead (c :: text)) :
    EndsNoHead text :=
  fun name head hhead hsuffix => h name head hhead (hsuffix.trans (List.suffix_cons c text))

/-- A declaration that started before the brace would have its head end there. -/
theorem declaredAt?_brace_eq_none {front : List Char} (hfront : '\x7b' ∉ front)
    (hhead : EndsNoHead front) (rest : List Char) :
    declaredAt? (front ++ '\x7b' :: rest) = none := by
  refine Option.eq_none_iff_forall_ne_some.mpr fun declared hdecl => ?_
  obtain ⟨head, after, htext, hisHead, -, -⟩ := declaredAt?_eq_some_iff.mp hdecl
  have heq := (mark_append_inj htext hfront hisHead.brace_not_mem).1
  exact hhead _ head hisHead (heq ▸ List.suffix_refl front)

/-- **The search goes on after an opening brace at which no head ends.** -/
theorem findFrom?_brace {front : List Char} (hfront : '\x7b' ∉ front) (hhead : EndsNoHead front)
    (insideWord : Bool) (rest : List Char) :
    findFrom? insideWord (front ++ '\x7b' :: rest) = findFrom? false rest := by
  induction front generalizing insideWord with
  | nil =>
      have hnone := declaredAt?_brace_eq_none hfront hhead rest
      rw [List.nil_append] at hnone ⊢
      rw [findFrom?, hnone, ite_self, isWord_brace]
  | cons c front ih =>
      have hnone := declaredAt?_brace_eq_none hfront hhead rest
      rw [List.cons_append] at hnone ⊢
      rw [findFrom?, hnone, ite_self]
      exact ih (fun hmem => hfront (List.mem_cons_of_mem c hmem)) hhead.tail (isWord c)

/-- A text without an opening brace has no declaration. -/
theorem findFrom?_eq_none {text : List Char} (h : '\x7b' ∉ text) (insideWord : Bool) :
    findFrom? insideWord text = none := by
  induction text generalizing insideWord with
  | nil => rfl
  | cons c text ih =>
      have hnone : declaredAt? (c :: text) = none := by
        refine Option.eq_none_iff_forall_ne_some.mpr fun declared hdecl => ?_
        obtain ⟨head, after, htext, -⟩ := declaredAt?_eq_some_iff.mp hdecl
        exact h (by rw [htext]; simp)
      rw [findFrom?, hnone, ite_self]
      exact ih (fun hmem => h (List.mem_cons_of_mem c hmem)) (isWord c)

end SchemaForge.TypeScript.Import
