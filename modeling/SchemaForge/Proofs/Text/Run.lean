import Mathlib.Data.Bool.AllAny
import Mathlib.Data.List.TakeWhile
import SchemaForge.Text.Blank
import SchemaForge.Text.Word

/-!
# `Proofs.Text.Run` — runs of characters of one class

A scanner takes the longest run of a class off the front of a text. The lemmas here say where such
a run ends, that a text splits into a run and a rest in one way only, and that the classes the
scanners use are disjoint.

## Contents
- **Runs.** `StopsAt`, `takeWhile_run`, `dropWhile_run` and `run_append_inj`.
- **Classes.** No blank is a word character; `trim` keeps a text without blanks at its ends.
-/

namespace SchemaForge.Text

variable {p : Char → Bool}

/-! ## Runs at the front of a text -/

/-- The text does not go on with a character of the class. -/
def StopsAt (p : Char → Bool) (rest : List Char) : Prop := ∀ c, rest.head? = some c → p c = false

theorem stopsAt_nil : StopsAt p [] := by
  intro c h
  simp at h

theorem stopsAt_cons {c : Char} {rest : List Char} (h : p c = false) : StopsAt p (c :: rest) := by
  intro d hd
  have : c = d := by simpa using hd
  rw [← this]
  exact h

/-- What is left after a run does not go on with its class. -/
theorem stopsAt_dropWhile (text : List Char) : StopsAt p (text.dropWhile p) := by
  induction text with
  | nil => exact stopsAt_nil
  | cons c rest ih =>
      cases h : p c with
      | true  => rw [List.dropWhile_cons_of_pos h]; exact ih
      | false => rw [List.dropWhile_cons_of_neg (by simp [h])]; exact stopsAt_cons h

/-- A text that is not empty alone decides whether it goes on with a class. -/
theorem stopsAt_append {front : List Char} (hne : front ≠ []) (h : StopsAt p front)
    (rest : List Char) : StopsAt p (front ++ rest) := by
  cases front with
  | nil => exact absurd rfl hne
  | cons c front => exact stopsAt_cons (h c rfl)

/-- What is left after a run stops its class in front of a text that stops it too. -/
theorem stopsAt_dropWhile_append (text : List Char) {rest : List Char} (h : StopsAt p rest) :
    StopsAt p (text.dropWhile p ++ rest) := by
  by_cases hnil : text.dropWhile p = []
  · rw [hnil, List.nil_append]
    exact h
  · exact stopsAt_append hnil (stopsAt_dropWhile text) rest

theorem takeWhile_eq_nil_of_stopsAt {rest : List Char} (h : StopsAt p rest) :
    rest.takeWhile p = [] := by
  cases rest with
  | nil => rfl
  | cons c rest => rw [List.takeWhile_cons_of_neg]; simp [h c rfl]

theorem dropWhile_eq_self_of_stopsAt {rest : List Char} (h : StopsAt p rest) :
    rest.dropWhile p = rest := by
  cases rest with
  | nil => rfl
  | cons c rest => rw [List.dropWhile_cons_of_neg]; simp [h c rfl]

/-- The longest run of a class is the one after which the text stops. -/
theorem takeWhile_run {run rest : List Char} (h : ∀ c ∈ run, p c = true) (stop : StopsAt p rest) :
    (run ++ rest).takeWhile p = run := by
  rw [List.takeWhile_append_of_pos h, takeWhile_eq_nil_of_stopsAt stop, List.append_nil]

theorem dropWhile_run {run rest : List Char} (h : ∀ c ∈ run, p c = true) (stop : StopsAt p rest) :
    (run ++ rest).dropWhile p = rest := by
  rw [List.dropWhile_append_of_pos h, dropWhile_eq_self_of_stopsAt stop]

/-- A text splits into a run and a rest that stops it in one way only. -/
theorem run_append_inj {run run' rest rest' : List Char} (h : run ++ rest = run' ++ rest')
    (hrun : ∀ c ∈ run, p c = true) (hrun' : ∀ c ∈ run', p c = true)
    (stop : StopsAt p rest) (stop' : StopsAt p rest') : run = run' ∧ rest = rest' := by
  have htake := congrArg (List.takeWhile p) h
  have hdrop := congrArg (List.dropWhile p) h
  rw [takeWhile_run hrun stop, takeWhile_run hrun' stop'] at htake
  rw [dropWhile_run hrun stop, dropWhile_run hrun' stop'] at hdrop
  exact ⟨htake, hdrop⟩

/-- A character that a run cannot have is left after it. -/
theorem mem_dropWhile {text : List Char} {c : Char} (h : c ∈ text) (hc : p c = false) :
    c ∈ text.dropWhile p := by
  rw [← List.takeWhile_append_dropWhile (p := p) (l := text)] at h
  rcases List.mem_append.mp h with h | h
  · have hrun := List.mem_takeWhile_imp h
    rw [hc] at hrun
    exact nomatch hrun
  · exact h

/-- A text ends as its last part does. -/
theorem getLast?_append_right {front back : List Char} (hne : back ≠ []) :
    (front ++ back).getLast? = back.getLast? := by
  rw [List.getLast?_append, List.getLast?_eq_some_getLast hne]
  rfl

/-! ## Up to the first mark -/

/-- A text splits at the first place of a mark in one way only. -/
theorem mark_append_inj {mark : Char} {front front' rest rest' : List Char}
    (h : front ++ mark :: rest = front' ++ mark :: rest')
    (hfront : mark ∉ front) (hfront' : mark ∉ front') : front = front' ∧ rest = rest' := by
  have inside : ∀ {text : List Char}, mark ∉ text → ∀ c ∈ text, (c != mark) = true := by
    intro text hmark c hc
    simpa using fun he : c = mark => hmark (he ▸ hc)
  have stop : ∀ text : List Char, StopsAt (· != mark) (mark :: text) :=
    fun text => stopsAt_cons (by simp)
  obtain ⟨hf, hr⟩ := run_append_inj h (inside hfront) (inside hfront') (stop _) (stop _)
  exact ⟨hf, (List.cons.inj hr).2⟩

/-! ## Blanks and words -/

theorem isBlank_space : isBlank ' ' = true := by decide

theorem isBlank_newline : isBlank '\n' = true := by decide

/-- The code points of white space. -/
def blankPoints : List Nat :=
  [0x9, 0xA, 0xB, 0xC, 0xD, 0x20, 0x85, 0xA0, 0x1680, 0x2000, 0x2001, 0x2002, 0x2003, 0x2004,
   0x2005, 0x2006, 0x2007, 0x2008, 0x2009, 0x200A, 0x2028, 0x2029, 0x202F, 0x205F, 0x3000]

theorem mem_blankPoints {c : Char} (h : isBlank c = true) : c.toNat ∈ blankPoints := by
  simp only [isBlank, Bool.or_eq_true, Bool.and_eq_true, decide_eq_true_eq, beq_iff_eq] at h
  simp only [blankPoints, List.mem_cons, List.not_mem_nil, or_false]
  omega

theorem inRanges_blankPoints : ∀ point ∈ blankPoints, inRanges point wordRanges = false := by
  decide +kernel

theorem isWord_eq_false_of_isBlank {c : Char} (h : isBlank c = true) : isWord c = false :=
  inRanges_blankPoints _ (mem_blankPoints h)

theorem isBlank_eq_false_of_isWord {c : Char} (h : isWord c = true) : isBlank c = false := by
  cases hb : isBlank c with
  | false => rfl
  | true  => rw [isWord_eq_false_of_isBlank hb] at h; exact absurd h (by simp)

/-! ## Trimming -/

/-- No white space at either end. -/
def IsTrimmed (text : List Char) : Prop :=
  (∀ c, text.head? = some c → isBlank c = false) ∧ ∀ c, text.getLast? = some c → isBlank c = false

theorem trimStart_of_stopsAt {text : List Char} (h : StopsAt isBlank text) :
    trimStart text = text := dropWhile_eq_self_of_stopsAt h

theorem trimStart_blank {text : List Char} {c : Char} (h : isBlank c = true) :
    trimStart (c :: text) = trimStart text := List.dropWhile_cons_of_pos h

theorem trimEnd_of_isTrimmed {text : List Char} (h : IsTrimmed text) : trimEnd text = text := by
  have stop : StopsAt isBlank text.reverse := by
    intro c hc
    exact h.2 c (by rw [← hc, List.head?_reverse])
  rw [trimEnd, dropWhile_eq_self_of_stopsAt stop, List.reverse_reverse]

theorem trimEnd_append_blank {text : List Char} {c : Char} (h : isBlank c = true) :
    trimEnd (text ++ [c]) = trimEnd text := by
  rw [trimEnd, List.reverse_append, List.reverse_singleton, List.singleton_append,
    List.dropWhile_cons_of_pos h, trimEnd]

theorem trim_of_isTrimmed {text : List Char} (h : IsTrimmed text) : trim text = text := by
  rw [trim, trimStart_of_stopsAt h.1, trimEnd_of_isTrimmed h]

theorem isPrefix_trimEnd (text : List Char) : trimEnd text <+: text := by
  rw [trimEnd, ← List.reverse_suffix, List.reverse_reverse]
  exact List.dropWhile_suffix _

/-- Trimming takes away nothing inside of a text. -/
theorem isInfix_trim (text : List Char) : trim text <:+: text :=
  (isPrefix_trimEnd _).isInfix.trans (List.dropWhile_suffix _).isInfix

/-- Trimming takes away white space only. -/
theorem mem_trim {text : List Char} {c : Char} (h : c ∈ text) (hc : isBlank c = false) :
    c ∈ trim text := by
  have hstart : c ∈ (trimStart text).reverse := List.mem_reverse.mpr (mem_dropWhile h hc)
  exact List.mem_reverse.mpr (mem_dropWhile hstart hc)

theorem isTrimmed_trim (text : List Char) : IsTrimmed (trim text) := by
  refine ⟨fun c hc => ?_, fun c hc => ?_⟩
  · obtain ⟨rest, hrest⟩ := isPrefix_trimEnd (trimStart text)
    refine stopsAt_dropWhile text c ?_
    rw [← trimStart, ← hrest, List.head?_append, ← trim, hc]
    rfl
  · rw [trim, trimEnd, List.getLast?_reverse] at hc
    exact stopsAt_dropWhile _ c hc

/-- Trimming keeps exactly the texts without white space at either end. -/
theorem isTrimmed_of_trim {text : List Char} (h : trim text = text) : IsTrimmed text :=
  h ▸ isTrimmed_trim text

/-- White space after a trimmed text is taken away. -/
theorem trim_append_blanks {text blanks : List Char} (hne : text ≠ []) (h : IsTrimmed text)
    (hblanks : ∀ c ∈ blanks, isBlank c = true) : trim (text ++ blanks) = text := by
  have hstop : StopsAt isBlank text.reverse := by
    intro c hc
    exact h.2 c (by rw [← hc, List.head?_reverse])
  rw [trim, trimStart_of_stopsAt (stopsAt_append hne h.1 blanks), trimEnd, List.reverse_append,
    dropWhile_run (fun c hc => hblanks c (List.mem_reverse.mp hc)) hstop, List.reverse_reverse]

theorem trim_append_blank {text : List Char} {blank : Char} (hne : text ≠ []) (h : IsTrimmed text)
    (hblank : isBlank blank = true) : trim (text ++ [blank]) = text :=
  trim_append_blanks hne h (List.forall_mem_singleton.mpr hblank)

end SchemaForge.Text
