import Mathlib.Data.List.Forall2
import Mathlib.Logic.Relation
import SchemaForge.Proofs.Command.Directory

/-!
# `Proofs.Command.Workers` — inputs loaded by several workers at once

The inputs of a run that generates are loaded by workers that share the session: each input is read
once and finished once, and between the two any other worker may go on. Only the standard input can be
used up, so a worker that reads it second gets an empty text, from which no schema is read. Hence no
order of the workers loads other schemas than any other order, nor in another place.

## Contents
- **Workers.** `Workers`, and `Workers.Step`, what one of them does.
- **Inputs.** `Session.Holds` and `Session.Lacks`.
- **Invariant.** `Workers.Sound`, kept by a step and so by a run.
- **Outcomes.** `Sound.loaded` and `Sound.failed`, what the workers bring back.
- **To the end.** `exists_gives`: no order of the workers gets stuck.
- **In order.** `steps_readSources`: the workers may go one after the other.
-/

namespace SchemaForge

open Document

/-! ## Workers -/

/-- How far the work on an input has come. -/
inductive Progress where
  | waiting
  | read (content : Except FileError String)
  | finished (result : Except Failure Schema)

/-- A session that workers share, and their inputs. -/
structure Workers where
  session : Session
  slots : List (String × Progress)

namespace Workers

/-- The workers before any of them has read its input. -/
def start (session : Session) (inputs : List String) : Workers where
  session := session
  slots := inputs.map fun path => (path, .waiting)

/-- What one worker does: it reads its input, or makes a schema of what it has read. -/
inductive Step (workers : Workers) : Workers → Prop where
  | read {front back : List (String × Progress)} {path : String}
      (h : workers.slots = front ++ (path, .waiting) :: back) :
      Step workers
        ⟨workers.session.afterReading path,
          front ++ (path, .read (workers.session.sourceText path)) :: back⟩
  | finish {front back : List (String × Progress)} {path : String}
      {content : Except FileError String}
      (h : workers.slots = front ++ (path, .read content) :: back) :
      Step workers
        ⟨workers.session,
          front ++ (path, .finished (Command.Source.schema ⟨path, content⟩)) :: back⟩

/-- What the workers bring back: all schemas in the order of the inputs, or the failure of any of
    them, which need not wait for the others. -/
inductive Gives (workers : Workers) : Except Failure (List Schema) → Prop where
  | loaded {schemas : List Schema}
      (h : workers.slots.map Prod.snd = schemas.map fun schema => .finished (.ok schema)) :
      Gives workers (.ok schemas)
  | failed {path : String} {failure : Failure}
      (h : (path, .finished (.error failure)) ∈ workers.slots) : Gives workers (.error failure)

end Workers

/-! ## Inputs -/

namespace Session

/-- Whether an input is the document of a schema. -/
def Holds (session : Session) (path : String) (schema : Schema) : Prop :=
  ∃ format text, Format.ofPath? path = some format ∧ session.sourceText path = .ok text ∧
    format.parse text = some schema

/-- Why an input has no schema: its extension is unknown, it cannot be read, or what is read is no
    document of a schema. -/
inductive Lacks (session : Session) (path : String) : Prop where
  | extension (h : Format.ofPath? path = none)
  | content {error : FileError} (h : session.sourceText path = .error error)
  | document {format : Format} {text : String} (hformat : Format.ofPath? path = some format)
      (htext : session.sourceText path = .ok text) (h : format.parse text = none)

variable {session : Session} {path : String}

/-- The schema of an input that is read in the session as it is. -/
def load (session : Session) (path : String) : Except Failure Schema :=
  Command.Source.schema ⟨path, session.sourceText path⟩

/-- An input holds the schema that is loaded, or it lacks one. -/
theorem load_cases (session : Session) (path : String) :
    (∃ schema, session.load path = .ok schema ∧ session.Holds path schema) ∨
      ∃ failure, session.load path = .error failure ∧ session.Lacks path := by
  unfold load Command.Source.schema Command.Source.text
  dsimp only
  cases hformat : Format.ofPath? path with
  | none => exact Or.inr ⟨_, rfl, .extension hformat⟩
  | some format =>
      cases htext : session.sourceText path with
      | error error => exact Or.inr ⟨_, rfl, .content htext⟩
      | ok text =>
          dsimp only [bind, Except.bind]
          cases hparse : format.parse text with
          | none        => exact Or.inr ⟨_, rfl, .document hformat htext hparse⟩
          | some schema => exact Or.inl ⟨schema, rfl, format, text, hformat, htext, hparse⟩

theorem load_eq_ok_iff {schema : Schema} :
    session.load path = .ok schema ↔ session.Holds path schema := by
  constructor
  · intro h
    rcases session.load_cases path with ⟨schema', hload, hholds⟩ | ⟨failure, hload, -⟩
    · obtain rfl := Except.ok.inj (h.symm.trans hload)
      exact hholds
    · exact nomatch h.symm.trans hload
  · rintro ⟨format, text, hformat, htext, hparse⟩
    unfold load
    rw [htext]
    exact schema_source hformat hparse

theorem load_eq_error_iff :
    (∃ failure, session.load path = .error failure) ↔ session.Lacks path := by
  constructor
  · rintro ⟨failure, h⟩
    rcases session.load_cases path with ⟨schema, hload, -⟩ | ⟨-, -, hlacks⟩
    · exact nomatch h.symm.trans hload
    · exact hlacks
  · intro h
    unfold load Command.Source.schema Command.Source.text
    cases h with
    | extension hformat =>
        rw [hformat]
        exact ⟨_, rfl⟩
    | content htext =>
        rw [htext]
        cases Format.ofPath? path with
        | none   => exact ⟨_, rfl⟩
        | some _ => exact ⟨_, rfl⟩
    | document hformat htext hparse =>
        rw [hformat, htext]
        dsimp only [bind, Except.bind]
        rw [hparse]
        exact ⟨_, rfl⟩

theorem Lacks.not_holds (h : session.Lacks path) (schema : Schema) : ¬ session.Holds path schema := by
  intro hholds
  obtain ⟨failure, hfailure⟩ := load_eq_error_iff.mpr h
  exact nomatch hfailure.symm.trans (load_eq_ok_iff.mpr hholds)

/-- An input holds one schema. -/
theorem holds_unique (session : Session) : Relator.RightUnique session.Holds :=
  fun _ _ _ h h' => Except.ok.inj ((load_eq_ok_iff.mpr h).symm.trans (load_eq_ok_iff.mpr h'))

variable {inputs : List String}

theorem exists_holds_of_mem {schemas : List Schema} (h : List.Forall₂ session.Holds inputs schemas)
    (hpath : path ∈ inputs) : ∃ schema, session.Holds path schema := by
  induction h with
  | nil => exact nomatch hpath
  | cons hschema _ ih =>
      rcases List.mem_cons.mp hpath with rfl | hpath
      · exact ⟨_, hschema⟩
      · exact ih hpath

theorem exists_forall₂_holds (h : ∀ path ∈ inputs, ¬ session.Lacks path) :
    ∃ schemas, List.Forall₂ session.Holds inputs schemas := by
  induction inputs with
  | nil => exact ⟨[], .nil⟩
  | cons path inputs ih =>
      obtain ⟨hpath, hrest⟩ := List.forall_mem_cons.mp h
      obtain ⟨schemas, hschemas⟩ := ih hrest
      cases hload : session.load path with
      | error failure => exact absurd (load_eq_error_iff.mp ⟨failure, hload⟩) hpath
      | ok schema     => exact ⟨schema :: schemas, .cons (load_eq_ok_iff.mp hload) hschemas⟩

end Session

/-! ## Invariant -/

/-- Whether there is, or may still come, a schema of what has been read. -/
def Progress.isFruitful : Progress → Bool
  | waiting            => false
  | read (.ok text)    => text != ""
  | read (.error _)    => false
  | finished (.ok _)   => true
  | finished (.error _) => false

namespace Workers

variable {session : Session} {inputs : List String} {workers workers' : Workers}

/-- Whether a worker can have read this from its input. The standard input is empty for the second
    that reads it. -/
def Reads (session : Session) (inputs : List String) (path : String)
    (content : Except FileError String) : Prop :=
  content = session.sourceText path ∨
    path = Format.standardInput ∧ content = .ok "" ∧ 1 < inputs.count Format.standardInput

/-- Whether the work on an input can have come so far. -/
def IsProgress (session : Session) (inputs : List String) (path : String) : Progress → Prop
  | .waiting         => True
  | .read content    => Reads session inputs path content
  | .finished result =>
    ∃ content, Reads session inputs path content ∧ result = Command.Source.schema ⟨path, content⟩

/-- How many workers have something of the standard input. -/
def fruitful (slots : List (String × Progress)) : Nat :=
  slots.countP fun slot => slot.1 == Format.standardInput && slot.2.isFruitful

/-- What is true of workers at any time. -/
structure Sound (session : Session) (inputs : List String) (workers : Workers) : Prop where
  paths : workers.slots.map Prod.fst = inputs
  files : workers.session.files = session.files
  output : workers.session.output = session.output
  messages : workers.session.messages = session.messages
  progress : ∀ slot ∈ workers.slots, IsProgress session inputs slot.1 slot.2
  /-- The standard input is as it was, or a worker has emptied it. -/
  input : workers.session.input = session.input ∨ workers.session.input = .text "" ∧
    ∃ slot ∈ workers.slots, slot.1 = Format.standardInput ∧ slot.2 ≠ .waiting
  /-- At most one worker has something of the standard input, and none as long as some is left. -/
  once : fruitful workers.slots ≤ 1 ∧
    (workers.session.input ≠ .text "" → fruitful workers.slots = 0)

theorem fruitful_start (inputs : List String) :
    fruitful (inputs.map fun path => (path, .waiting)) = 0 := by
  unfold fruitful
  rw [List.countP_eq_zero]
  intro slot hslot
  obtain ⟨path, -, rfl⟩ := List.mem_map.mp hslot
  show ¬ (path == Format.standardInput && false) = true
  rw [Bool.and_false]
  exact Bool.false_ne_true

theorem sound_start (session : Session) (inputs : List String) :
    Sound session inputs (.start session inputs) where
  paths := by
    unfold start
    rw [List.map_map]
    exact List.map_id _
  files := rfl
  output := rfl
  messages := rfl
  progress := by
    intro slot hslot
    obtain ⟨path, -, rfl⟩ := List.mem_map.mp hslot
    trivial
  input := Or.inl rfl
  once := by
    have hnone := fruitful_start inputs
    exact ⟨hnone.trans_le (Nat.zero_le 1), fun _ => hnone⟩

/-! ### One step -/

variable {front back : List (String × Progress)} {path : String} {before after : Progress}

theorem fruitful_split (front back : List (String × Progress)) (path : String)
    (progress : Progress) : fruitful (front ++ (path, progress) :: back)
      = fruitful front + fruitful back
        + if path = Format.standardInput ∧ progress.isFruitful = true then 1 else 0 := by
  unfold fruitful
  rw [List.countP_append, List.countP_cons, Nat.add_assoc]
  simp only [Bool.and_eq_true, beq_iff_eq]

/-- The work on one input goes on: the inputs stay, and so does what is true of the others. -/
theorem Sound.slots (h : Sound session inputs workers)
    (hslots : workers.slots = front ++ (path, before) :: back)
    (hafter : IsProgress session inputs path after) :
    (front ++ (path, after) :: back).map Prod.fst = inputs ∧
      ∀ slot ∈ front ++ (path, after) :: back, IsProgress session inputs slot.1 slot.2 := by
  have hpaths := h.paths
  have hprogress := h.progress
  rw [hslots] at hpaths hprogress
  constructor
  · rw [← hpaths, List.map_append, List.map_append, List.map_cons, List.map_cons]
  · intro slot hslot
    rw [List.mem_append, List.mem_cons] at hslot
    rcases hslot with hfront | rfl | hback
    · exact hprogress slot (List.mem_append_left _ hfront)
    · exact hafter
    · exact hprogress slot (List.mem_append_right _ (List.mem_cons_of_mem _ hback))

/-- The work on one input goes on without the standard input. -/
theorem Sound.replace (h : Sound session inputs workers)
    (hslots : workers.slots = front ++ (path, before) :: back)
    (hafter : IsProgress session inputs path after) (hread : after ≠ .waiting)
    (hfruitful : path = Format.standardInput → after.isFruitful = true →
      before.isFruitful = true) :
    Sound session inputs ⟨workers.session, front ++ (path, after) :: back⟩ := by
  obtain ⟨hpaths, hprogress⟩ := h.slots hslots hafter
  have hinput := h.input
  have honce := h.once
  rw [hslots] at hinput honce
  refine ⟨hpaths, h.files, h.output, h.messages, hprogress, ?_, ?_⟩
  · rcases hinput with hsame | ⟨hempty, slot, hslot, hstandard, hother⟩
    · exact Or.inl hsame
    · refine Or.inr ⟨hempty, ?_⟩
      rw [List.mem_append, List.mem_cons] at hslot
      rcases hslot with hfront | rfl | hback
      · exact ⟨slot, List.mem_append_left _ hfront, hstandard, hother⟩
      · exact ⟨(path, after), List.mem_append_right _ List.mem_cons_self, hstandard, hread⟩
      · exact ⟨slot, List.mem_append_right _ (List.mem_cons_of_mem _ hback), hstandard, hother⟩
  · have hless : fruitful (front ++ (path, after) :: back)
        ≤ fruitful (front ++ (path, before) :: back) := by
      rw [fruitful_split, fruitful_split]
      refine Nat.add_le_add_left ?_ _
      by_cases hboth : path = Format.standardInput ∧ after.isFruitful = true
      · rw [if_pos hboth, if_pos ⟨hboth.1, hfruitful hboth.1 hboth.2⟩]
      · rw [if_neg hboth]
        exact Nat.zero_le _
    exact ⟨hless.trans honce.1, fun hne => Nat.le_zero.mp (hless.trans (honce.2 hne).le)⟩

/-- Two inputs are the standard input if a worker waits for it and another one has read it. -/
theorem Sound.two_of_waiting (h : Sound session inputs workers)
    (hslots : workers.slots = front ++ (Format.standardInput, .waiting) :: back)
    {slot : String × Progress} (hslot : slot ∈ workers.slots)
    (hpath : slot.1 = Format.standardInput) (hread : slot.2 ≠ .waiting) :
    1 < inputs.count Format.standardInput := by
  have hother : Format.standardInput ∈ front.map Prod.fst ++ back.map Prod.fst := by
    rw [hslots, List.mem_append, List.mem_cons] at hslot
    rw [List.mem_append, ← hpath]
    rcases hslot with hfront | rfl | hback
    · exact Or.inl (List.mem_map_of_mem hfront)
    · exact absurd rfl hread
    · exact Or.inr (List.mem_map_of_mem hback)
  have hcount := List.count_pos_iff.mpr hother
  rw [← h.paths, hslots, List.map_append, List.map_cons, List.count_append, List.count_cons_self]
  rw [List.count_append] at hcount
  omega

theorem sourceText_of_sound (h : Sound session inputs workers) (hpath : path ≠ Format.standardInput) :
    workers.session.sourceText path = session.sourceText path := by
  unfold Session.sourceText
  rw [if_neg hpath, if_neg hpath, h.files]

theorem sourceText_standardInput (session : Session) :
    session.sourceText Format.standardInput = session.input.read := if_pos rfl

/-- A worker reads its input. -/
theorem Sound.read (h : Sound session inputs workers)
    (hslots : workers.slots = front ++ (path, .waiting) :: back) :
    Sound session inputs
      ⟨workers.session.afterReading path,
        front ++ (path, .read (workers.session.sourceText path)) :: back⟩ := by
  by_cases hpath : path = Format.standardInput
  · -- what is read is what the standard input has held, or nothing
    subst hpath
    have hafter : workers.session.afterReading Format.standardInput
        = { workers.session with input := .text "" } := if_pos rfl
    have hreads : Reads session inputs Format.standardInput workers.session.input.read := by
      rcases h.input with hsame | ⟨hempty, slot, hslot, hstandard, hread⟩
      · exact Or.inl (by rw [hsame, sourceText_standardInput])
      · exact Or.inr ⟨rfl, by rw [hempty]; rfl, h.two_of_waiting hslots hslot hstandard hread⟩
    have honce := h.once
    rw [hslots, fruitful_split, if_neg fun hboth => Bool.false_ne_true hboth.2,
      Nat.add_zero] at honce
    rw [sourceText_standardInput, hafter]
    obtain ⟨hpaths, hprogress⟩ :=
      h.slots hslots (show IsProgress session inputs _ (.read _) from hreads)
    refine ⟨hpaths, h.files, h.output, h.messages, hprogress, Or.inr ⟨rfl, _,
      List.mem_append_right _ List.mem_cons_self, rfl, Progress.noConfusion⟩, ?_,
      fun hne => absurd rfl hne⟩
    rw [fruitful_split]
    by_cases hempty : workers.session.input = .text ""
    · have hnot : ¬ (Format.standardInput = Format.standardInput ∧
          (Progress.read workers.session.input.read).isFruitful = true) := by
        rw [hempty]
        decide
      rw [if_neg hnot]
      exact honce.1
    · rw [honce.2 hempty]
      split
      · exact Nat.le_refl 1
      · exact Nat.zero_le 1
  · have hafter : workers.session.afterReading path = workers.session := if_neg hpath
    rw [sourceText_of_sound h hpath, hafter]
    exact h.replace hslots (show IsProgress session inputs path (.read _) from Or.inl rfl)
      Progress.noConfusion
      fun hstandard => absurd hstandard hpath

/-- An empty text is no document on the standard input. -/
theorem schema_empty : Command.Source.schema ⟨Format.standardInput, .ok ""⟩
    = .error (.invalidSchema Format.standardInput) := by
  have hparse : (Format.json.parse "").isNone = true := by decide +kernel
  have hformat : Format.ofPath? Format.standardInput = some .json := rfl
  unfold Command.Source.schema Command.Source.text
  dsimp only
  rw [hformat]
  dsimp only [bind, Except.bind]
  rw [Option.isNone_iff_eq_none.mp hparse]

/-- A worker makes a schema of what it has read. -/
theorem Sound.finish (h : Sound session inputs workers) {content : Except FileError String}
    (hslots : workers.slots = front ++ (path, .read content) :: back) :
    Sound session inputs
      ⟨workers.session,
        front ++ (path, .finished (Command.Source.schema ⟨path, content⟩)) :: back⟩ := by
  have hreads : Reads session inputs path content :=
    h.progress (path, .read content) (hslots ▸ List.mem_append_right _ List.mem_cons_self)
  have hfinished : IsProgress session inputs path
      (.finished (Command.Source.schema ⟨path, content⟩)) := ⟨content, hreads, rfl⟩
  refine h.replace hslots hfinished Progress.noConfusion ?_
  rintro rfl hfruitful
  cases content with
  | error error => exact hfruitful
  | ok text =>
      show (text != "") = true
      rw [bne_iff_ne]
      rintro rfl
      rw [schema_empty] at hfruitful
      exact Bool.false_ne_true hfruitful

/-- **What is true of workers stays true** whatever one of them does. -/
theorem Sound.step (h : Sound session inputs workers) (hstep : Step workers workers') :
    Sound session inputs workers' := by
  cases hstep with
  | read hslots   => exact h.read hslots
  | finish hslots => exact h.finish hslots

/-- **And it is true at any time of a run.** -/
theorem sound_of_steps (h : Relation.ReflTransGen Step (.start session inputs) workers) :
    Sound session inputs workers := by
  induction h with
  | refl => exact sound_start session inputs
  | tail _ hstep ih => exact ih.step hstep

/-! ## Outcomes -/

/-- A schema that is made of what is read of an input is the one that the input holds. -/
theorem Reads.holds {content : Except FileError String} {schema : Schema}
    (h : Reads session inputs path content)
    (hschema : Command.Source.schema ⟨path, content⟩ = .ok schema) :
    session.Holds path schema := by
  rcases h with rfl | ⟨rfl, rfl, -⟩
  · exact Session.load_eq_ok_iff.mp hschema
  · exact nomatch schema_empty.symm.trans hschema

theorem Reads.lacks {content : Except FileError String} {failure : Failure}
    (h : Reads session inputs path content)
    (hschema : Command.Source.schema ⟨path, content⟩ = .error failure) :
    session.Lacks path ∨ 1 < inputs.count Format.standardInput := by
  rcases h with rfl | ⟨-, -, htwice⟩
  · exact Or.inl (Session.load_eq_error_iff.mp ⟨failure, hschema⟩)
  · exact Or.inr htwice

/-- **A failure that is brought back is that of an input**, or the standard input is asked for
    twice. -/
theorem Sound.failed (h : Sound session inputs workers) {failure : Failure}
    (hgives : workers.Gives (.error failure)) :
    (∃ path ∈ inputs, session.Lacks path) ∨ 1 < inputs.count Format.standardInput := by
  cases hgives with
  | @failed path _ hslot =>
      have hpath : path ∈ inputs := h.paths ▸ List.mem_map_of_mem hslot
      obtain ⟨content, hreads, hschema⟩ := h.progress _ hslot
      rcases hreads.lacks hschema.symm with hlacks | htwice
      · exact Or.inl ⟨path, hpath, hlacks⟩
      · exact Or.inr htwice

theorem forall₂_holds_of_finished {slots : List (String × Progress)} {schemas : List Schema}
    (hprogress : ∀ slot ∈ slots, IsProgress session inputs slot.1 slot.2)
    (hgives : slots.map Prod.snd = schemas.map fun schema => .finished (.ok schema)) :
    List.Forall₂ session.Holds (slots.map Prod.fst) schemas := by
  induction slots generalizing schemas with
  | nil =>
      obtain rfl := List.map_eq_nil_iff.mp hgives.symm
      exact .nil
  | cons slot slots ih =>
      obtain ⟨path, progress⟩ := slot
      obtain ⟨schema, rest, rfl, hschema, hrest⟩ := List.map_eq_cons_iff.mp hgives.symm
      obtain ⟨hslot, hslots⟩ := List.forall_mem_cons.mp hprogress
      rw [← hschema] at hslot
      obtain ⟨content, hreads, hschema⟩ := hslot
      exact .cons (hreads.holds hschema.symm) (ih hslots hrest.symm)

/-- When all inputs have a schema, each that is the standard input has something of it. -/
theorem count_le_fruitful {slots : List (String × Progress)} {schemas : List Schema}
    (hgives : slots.map Prod.snd = schemas.map fun schema => .finished (.ok schema)) :
    (slots.map Prod.fst).count Format.standardInput ≤ fruitful slots := by
  have hfruitful : ∀ slot ∈ slots, slot.2.isFruitful = true := by
    intro slot hslot
    have hmem : slot.2 ∈ schemas.map fun schema => Progress.finished (.ok schema) :=
      hgives ▸ List.mem_map_of_mem hslot
    obtain ⟨schema, -, hschema⟩ := List.mem_map.mp hmem
    rw [← hschema]
    rfl
  unfold fruitful List.count
  rw [List.countP_map]
  refine List.countP_mono_left fun slot hslot hstandard => ?_
  rw [hfruitful slot hslot, Bool.and_true]
  exact hstandard

/-- **Schemas that are brought back are those of the inputs**, in their order, and the standard input
    is asked for at most once. -/
theorem Sound.loaded (h : Sound session inputs workers) {schemas : List Schema}
    (hgives : workers.Gives (.ok schemas)) :
    List.Forall₂ session.Holds inputs schemas ∧ inputs.count Format.standardInput ≤ 1 := by
  cases hgives with
  | loaded hgives =>
      rw [← h.paths]
      exact ⟨forall₂_holds_of_finished h.progress hgives, (count_le_fruitful hgives).trans h.once.1⟩

/-! ## To the end -/

/-- Workers that have all finished bring back what loading one input after the other gives. -/
theorem gives_of_finished {α : Type} (session : Session) (name : α → String)
    (result : α → Except Failure Schema) (list : List α) :
    Gives ⟨session, list.map fun x => (name x, .finished (result x))⟩ (list.mapM result) := by
  rcases mapM_cases result list with ⟨schemas, hload, hmap⟩ | ⟨failure, hload, x, hx, hfailure⟩
  · rw [hload]
    have hresults := congrArg (List.map Progress.finished) hmap
    rw [List.map_map, List.map_map] at hresults
    refine .loaded ?_
    rw [List.map_map]
    exact hresults
  · rw [hload]
    have hslot : (name x, Progress.finished (result x))
        ∈ list.map fun x => (name x, Progress.finished (result x)) := List.mem_map_of_mem hx
    rw [hfailure] at hslot
    exact .failed hslot

/-- No worker waits for another: all of them can finish, wherever they are. -/
theorem exists_finished (front back : List (String × Progress)) (session : Session) :
    ∃ (after : Session) (results : List (String × Except Failure Schema)),
      Relation.ReflTransGen Step ⟨session, front ++ back⟩
        ⟨after, front ++ results.map fun slot => (slot.1, .finished slot.2)⟩ := by
  -- one input after the other: those in front are done with
  induction back generalizing front session with
  | nil => exact ⟨session, [], .refl⟩
  | cons slot back ih =>
      obtain ⟨path, progress⟩ := slot
      have hrest : ∀ (result : Except Failure Schema) (next : Session),
          Relation.ReflTransGen Step ⟨session, front ++ (path, progress) :: back⟩
            ⟨next, front ++ (path, .finished result) :: back⟩ →
          ∃ (after : Session) (results : List (String × Except Failure Schema)),
            Relation.ReflTransGen Step ⟨session, front ++ (path, progress) :: back⟩
              ⟨after, front ++ results.map fun slot => (slot.1, .finished slot.2)⟩ := by
        intro result next hsteps
        obtain ⟨after, results, hafter⟩ := ih (front ++ [(path, .finished result)]) next
        rw [List.append_assoc, List.append_assoc, List.singleton_append, List.singleton_append]
          at hafter
        exact ⟨after, (path, result) :: results, hsteps.trans hafter⟩
      cases progress with
      | waiting         => exact hrest _ _ (.head (.read rfl) (.single (.finish rfl)))
      | read content    => exact hrest _ _ (.single (.finish rfl))
      | finished result => exact hrest result session .refl

/-- **No order of the workers gets stuck.** -/
theorem exists_gives (workers : Workers) : ∃ after result,
    Relation.ReflTransGen Step workers after ∧ after.Gives result := by
  obtain ⟨after, results, hsteps⟩ := exists_finished [] workers.slots workers.session
  exact ⟨_, _, hsteps, gives_of_finished after Prod.fst Prod.snd results⟩

/-! ## In order -/

/-- **The workers may go one after the other.** Then they read what reading all sources gives. -/
theorem steps_readSources (front : List (String × Progress)) (session : Session)
    (paths : List String) :
    Relation.ReflTransGen Step
      ⟨session, front ++ paths.map fun path => (path, .waiting)⟩
      ⟨(session.readSources paths).2, front ++ (session.readSources paths).1.map
        fun source => (source.path, .finished source.schema)⟩ := by
  induction paths generalizing front session with
  | nil => exact .refl
  | cons path paths ih =>
      have hrest := ih (front ++ [(path, .finished (session.load path))])
        (session.afterReading path)
      rw [List.append_assoc, List.append_assoc, List.singleton_append, List.singleton_append]
        at hrest
      rw [Session.readSources_cons]
      exact .head (.read rfl) (.head (.finish rfl) hrest)

end Workers

end SchemaForge
