import SchemaForge.Proofs.Command.Workers

/-!
# `Proofs.Command.Generation` — generating is all or nothing

A run that generates has its inputs loaded by workers, in any order, and does nothing before all of
them are loaded. So a run in which one input is not loaded leaves everything as it was, however many
others are; and a run that goes on has the codes of the inputs in their order.

## Contents
- **Runs.** `Session.Generates`, what a run that generates can come to.
- **In order.** `exists_generates`: a run that reads its inputs in order is one of them.
- **Outcomes.** `Generates.failure` and `Generates.performed`.
- **Writing.** `performAll_write`, the text of a run in one file.
- **The whole.** `generates_all_or_nothing`.
-/

namespace SchemaForge

open Document

/-! ## Runs -/

/-- What a run that generates can come to. -/
inductive Session.Generates (session : Session) (configHome : String) (inputs : List String)
    (target : String) (destination : Destination) (style : Layer) : ExitCode × Session → Prop where
  | unknownTarget (h : Registry.initial.find? target = none) :
      Generates session configHome inputs target destination style
        (.failure, session.say (errorLine (Failure.unknownTarget target).message))
  | failed {backend : Backend} {workers : Workers} {failure : Failure}
      (h : Registry.initial.find? target = some backend)
      (hsteps : Relation.ReflTransGen Workers.Step (.start session inputs) workers)
      (hgives : workers.Gives (.error failure)) :
      Generates session configHome inputs target destination style
        (.failure, workers.session.say (errorLine failure.message))
  | loaded {backend : Backend} {workers : Workers} {schemas : List Schema}
      (h : Registry.initial.find? target = some backend)
      (hsteps : Relation.ReflTransGen Workers.Step (.start session inputs) workers)
      (hgives : workers.Gives (.ok schemas)) :
      Generates session configHome inputs target destination style
        (workers.session.performAll (Command.generateEffects backend
          ((session.configuration configHome).resolve style) schemas destination))

namespace Session

variable {session : Session} {configHome target : String} {inputs : List String}
  {destination : Destination} {style : Layer}

/-! ## In order -/

theorem effects_generate_of_find? {backend : Backend}
    (h : Registry.initial.find? target = some backend) (configuration : Configuration)
    (sources : List Command.Source) :
    Command.effects configuration sources (.generate inputs target destination style)
      = (sources.mapM Command.Source.schema).bind fun schemas => .ok (Command.generateEffects backend
          (configuration.resolve style) schemas destination) := by
  rw [Command.effects, h]
  rfl

/-- Whether two outcomes look the same from outside; nobody sees what is left of the standard
    input. -/
structure SameOutcome (outcome outcome' : ExitCode × Session) : Prop where
  code : outcome.1 = outcome'.1
  files : outcome.2.files = outcome'.2.files
  output : outcome.2.output = outcome'.2.output
  messages : outcome.2.messages = outcome'.2.messages

/-- **A run that reads its inputs in order is one of the runs of the workers.** -/
theorem exists_generates (session : Session) (configHome : String) (inputs : List String)
    (target : String) (destination : Destination) (style : Layer) :
    ∃ outcome, session.Generates configHome inputs target destination style outcome ∧
      SameOutcome (session.runCommand configHome (.generate inputs target destination style))
        outcome := by
  have hsteps := Workers.steps_readSources [] session inputs
  have hsound := Workers.sound_of_steps hsteps
  have hgives := Workers.gives_of_finished (session.readSources inputs).2
    Command.Source.path Command.Source.schema (session.readSources inputs).1
  unfold runCommand Command.inputs
  dsimp only
  cases htarget : Registry.initial.find? target with
  | none =>
      -- nothing is read then, or what is read makes no difference
      refine ⟨_, .unknownTarget htarget, ?_⟩
      rw [Command.effects, htarget]
      exact ⟨rfl, hsound.files, hsound.output, congrArg (· ++ [_]) hsound.messages⟩
  | some backend =>
      rw [effects_generate_of_find? htarget]
      cases hload : (session.readSources inputs).1.mapM Command.Source.schema with
      | error failure =>
          rw [hload] at hgives
          exact ⟨_, .failed htarget hsteps hgives, ⟨rfl, rfl, rfl, rfl⟩⟩
      | ok schemas =>
          rw [hload] at hgives
          exact ⟨_, .loaded htarget hsteps hgives, ⟨rfl, rfl, rfl, rfl⟩⟩

/-! ## Outcomes -/

/-- **A run in which an input is not loaded does nothing**, whatever the others are. -/
theorem Generates.failure {outcome : ExitCode × Session}
    (h : session.Generates configHome inputs target destination style outcome)
    (hfails : Registry.initial.find? target = none ∨ (∃ path ∈ inputs, session.Lacks path) ∨
      1 < inputs.count Format.standardInput) :
    outcome.1 = .failure ∧ outcome.2.output = session.output ∧
      outcome.2.files = session.files := by
  cases h with
  | unknownTarget htarget => exact ⟨rfl, rfl, rfl⟩
  | failed htarget hsteps hgives =>
      have hsound := Workers.sound_of_steps hsteps
      exact ⟨rfl, hsound.output, hsound.files⟩
  | loaded htarget hsteps hgives =>
      obtain ⟨hholds, honce⟩ := (Workers.sound_of_steps hsteps).loaded hgives
      rcases hfails with hnone | ⟨path, hpath, hlacks⟩ | htwice
      · exact nomatch hnone.symm.trans htarget
      · obtain ⟨schema, hschema⟩ := exists_holds_of_mem hholds hpath
        exact absurd hschema (hlacks.not_holds schema)
      · omega

/-- **A run in which every input is loaded does what is asked of the schemas**, in the order of the
    inputs. -/
theorem Generates.performed {outcome : ExitCode × Session} {backend : Backend}
    {schemas : List Schema}
    (h : session.Generates configHome inputs target destination style outcome)
    (htarget : Registry.initial.find? target = some backend)
    (hholds : List.Forall₂ session.Holds inputs schemas)
    (honce : inputs.count Format.standardInput ≤ 1) :
    ∃ loaded : Session, loaded.files = session.files ∧ loaded.output = session.output ∧
      outcome = loaded.performAll (Command.generateEffects backend
        ((session.configuration configHome).resolve style) schemas destination) := by
  cases h with
  | unknownTarget hnone => exact nomatch hnone.symm.trans htarget
  | failed _ hsteps hgives =>
      rcases (Workers.sound_of_steps hsteps).failed hgives with ⟨path, hpath, hlacks⟩ | htwice
      · obtain ⟨schema, hschema⟩ := exists_holds_of_mem hholds hpath
        exact absurd hschema (hlacks.not_holds schema)
      · omega
  | @loaded _ workers _ htarget' hsteps hgives =>
      have hsound := Workers.sound_of_steps hsteps
      obtain rfl := Option.some.inj (htarget.symm.trans htarget')
      obtain rfl :=
        List.right_unique_forall₂' session.holds_unique hholds (hsound.loaded hgives).1
      exact ⟨workers.session, hsound.files, hsound.output, rfl⟩

/-! ## Writing -/

/-- The text of all codes, as it is printed or written. -/
def generatedText (backend : Backend) (settings : Settings) (schemas : List Schema) : String :=
  Command.joined (schemas.map (backend.generate · settings)) ++ "\n"

/-- What a run has written to a file: the file holds the text, and nothing else has changed. -/
structure HasWrittenOnly (before after : Session) (path text : String) : Prop where
  output : after.output = before.output
  hasText : after.files.HasText path text
  content? : ∀ place, place ≠ before.files.placeOf path →
    after.files.content? place = before.files.content? place
  sameDirectories : before.files.SameDirectories after.files

theorem performAll_write {path : String} (h : session.files.IsWritable path) (text : String) :
    (session.performAll [.write path text]).1 = .success ∧
      HasWrittenOnly session (session.performAll [.write path text]).2 path text := by
  have hwrite : session.files.write? path text = .ok _ := Files.write?_eq_ok_iff.mpr ⟨h, rfl⟩
  have hperform : session.perform (.write path text)
      = (.ok (), { session with files := session.files.put (session.files.placeOf path) text }.say
          (generatedLine path)) := by
    rw [perform, hwrite]
  rw [performAll, hperform]
  refine ⟨rfl, rfl, h.hasText_put text, fun place hplace => ?_, h.sameDirectories_put text⟩
  show (session.files.put _ _).content? place = _
  rw [Files.content?_put, if_neg hplace]

/-! ## The whole -/

/-- **Generating is all or nothing, and keeps the order of the inputs.** The workers come to an end
    from wherever they are, and to go in order is one way of it. In whatever order they go, a run with
    an unknown target or an input that is not loaded fails, prints nothing and changes no file; the
    standard input is empty for the second that asks for it. Any other run prints or writes the codes
    of the schemas that the inputs hold, in the order of the inputs. -/
theorem generates_all_or_nothing (session : Session) (configHome : String) (inputs : List String)
    (target : String) (destination : Destination) (style : Layer) :
    (∀ workers : Workers, ∃ after result,
      Relation.ReflTransGen Workers.Step workers after ∧ after.Gives result) ∧
    (∃ outcome, session.Generates configHome inputs target destination style outcome ∧
      SameOutcome (session.runCommand configHome (.generate inputs target destination style))
        outcome) ∧
    (Registry.initial.find? target = none ∨ (∃ path ∈ inputs, session.Lacks path) ∨
        1 < inputs.count Format.standardInput →
      ∀ outcome, session.Generates configHome inputs target destination style outcome →
        outcome.1 = .failure ∧ outcome.2.output = session.output ∧
          outcome.2.files = session.files) ∧
    ∀ backend, Registry.initial.find? target = some backend →
      (∀ path ∈ inputs, ¬ session.Lacks path) → inputs.count Format.standardInput ≤ 1 →
      ∃ schemas text, List.Forall₂ session.Holds inputs schemas ∧
        text = generatedText backend ((session.configuration configHome).resolve style) schemas ∧
        ∀ outcome, session.Generates configHome inputs target destination style outcome →
          (destination = .standardOutput → outcome.1 = .success ∧
            outcome.2.output = session.output ++ text ∧ outcome.2.files = session.files) ∧
          ∀ path, destination = .file path → session.files.IsWritable path →
            outcome.1 = .success ∧ HasWrittenOnly session outcome.2 path text := by
  refine ⟨Workers.exists_gives, exists_generates .., fun hfails outcome h => h.failure hfails, ?_⟩
  intro backend htarget hinputs honce
  obtain ⟨schemas, hholds⟩ := exists_forall₂_holds hinputs
  refine ⟨schemas, _, hholds, rfl, fun outcome h => ?_⟩
  obtain ⟨loaded, hfiles, houtput, rfl⟩ := h.performed htarget hholds honce
  constructor
  · rintro rfl
    exact ⟨rfl, congrArg (· ++ _) houtput, hfiles⟩
  · rintro path rfl hwritable
    have hloaded : loaded.files.IsWritable path := hfiles ▸ hwritable
    obtain ⟨hcode, hwritten⟩ := performAll_write hloaded
      (generatedText backend ((session.configuration configHome).resolve style) schemas)
    exact ⟨hcode, hwritten.output.trans houtput, hwritten.hasText, hfiles ▸ hwritten.content?,
      hfiles ▸ hwritten.sameDirectories⟩

theorem holds_of_parts {path name : String}
    (h : ((session.load path).map fun schema =>
      (schema.name, schema.description, schema.fields.length)).toOption = some (name, none, 0)) :
    session.Holds path { name } := by
  cases hload : session.load path with
  | error failure =>
      rw [hload] at h
      exact nomatch h
  | ok schema =>
      rw [hload] at h
      rw [← eq_of_parts (Option.some.inj h)]
      exact load_eq_ok_iff.mp hload

theorem holds_twoDocuments : List.Forall₂ twoDocuments.Holds ["b.json", "/work/a.json"]
    [{ name := ".." }, { name := "User" }] :=
  .cons (holds_of_parts (by decide +kernel)) (.cons (holds_of_parts (by decide +kernel)) .nil)

/-- Both documents, the later one first, as the configuration files have it. -/
def generateInto (destination : Destination) : Command :=
  .generate ["b.json", "/work/a.json"] "typescript" destination {}

/-- The same with a document between them that is no text, in a directory that is not there. -/
def generateUnreadable : Command :=
  .generate ["b.json", "../gen.json", "/work/a.json"] "typescript" (.directory "new") {}

/-- The text of both documents. -/
def bothText : String := "export interface ..Dto \x7b\n\x7d\n\nexport interface UserDto \x7b\n\x7d\n"

theorem isWritable_both : twoDocuments.files.IsWritable "../gen/both.ts" where
  locate := by decide +kernel
  isDirectory := by decide +kernel
  endsInName := by decide +kernel
  permit := by decide +kernel

/-- Both documents are printed or written into a file beside the directory, and nothing is done when
    another one cannot be read. -/
theorem generates_all_or_nothing_twoDocuments :
    ((twoDocuments.runCommand "/home" (generateInto .standardOutput)).1 = .success ∧
      (twoDocuments.runCommand "/home" (generateInto .standardOutput)).2.output = bothText) ∧
    ((twoDocuments.runCommand "/home" (generateInto (.file "../gen/both.ts"))).1 = .success ∧
      (twoDocuments.runCommand "/home" (generateInto (.file "../gen/both.ts"))).2.output = "" ∧
      (twoDocuments.runCommand "/home" (generateInto (.file "../gen/both.ts"))).2.files.HasText
        "../gen/both.ts" bothText) ∧
    (twoDocuments.runCommand "/home" generateUnreadable).1 = .failure ∧
      (twoDocuments.runCommand "/home" generateUnreadable).2.output = "" ∧
      (twoDocuments.runCommand "/home" generateUnreadable).2.files = twoDocuments.files := by
  have hinputs : ∀ path ∈ ["b.json", "/work/a.json"], ¬ twoDocuments.Lacks path := by
    intro path hpath hlacks
    obtain ⟨schema, hschema⟩ := exists_holds_of_mem holds_twoDocuments hpath
    exact hlacks.not_holds schema hschema
  have htext : ∀ {schemas : List Schema},
      List.Forall₂ twoDocuments.Holds ["b.json", "/work/a.json"] schemas →
      generatedText .typescript ((twoDocuments.configuration "/home").resolve {}) schemas
        = bothText := by
    intro schemas hholds
    obtain rfl := List.right_unique_forall₂' twoDocuments.holds_unique hholds holds_twoDocuments
    decide +kernel
  unfold generateInto generateUnreadable
  refine ⟨?_, ?_, ?_⟩
  · obtain ⟨-, ⟨outcome, hgenerates, hsame⟩, -, hperformed⟩ :=
      generates_all_or_nothing twoDocuments "/home" ["b.json", "/work/a.json"] "typescript"
        .standardOutput {}
    obtain ⟨schemas, text, hholds, rfl, hrun⟩ := hperformed .typescript rfl hinputs (by decide)
    obtain ⟨hcode, houtput, -⟩ := (hrun outcome hgenerates).1 rfl
    rw [htext hholds] at houtput
    exact ⟨hsame.code.trans hcode, hsame.output.trans houtput⟩
  · obtain ⟨-, ⟨outcome, hgenerates, hsame⟩, -, hperformed⟩ :=
      generates_all_or_nothing twoDocuments "/home" ["b.json", "/work/a.json"] "typescript"
        (.file "../gen/both.ts") {}
    obtain ⟨schemas, text, hholds, rfl, hrun⟩ := hperformed .typescript rfl hinputs (by decide)
    obtain ⟨hcode, hwritten⟩ := (hrun outcome hgenerates).2 _ rfl isWritable_both
    have hfile := hwritten.hasText
    rw [htext hholds, ← hsame.files] at hfile
    exact ⟨hsame.code.trans hcode, hsame.output.trans hwritten.output, hfile⟩
  · have hread : twoDocuments.sourceText "../gen.json" = .error .notText := by decide +kernel
    obtain ⟨-, ⟨outcome, hgenerates, hsame⟩, hfails, -⟩ :=
      generates_all_or_nothing twoDocuments "/home" ["b.json", "../gen.json", "/work/a.json"]
        "typescript" (.directory "new") {}
    obtain ⟨hcode, houtput, hfiles⟩ :=
      hfails (Or.inr (Or.inl ⟨"../gen.json", by decide, .content hread⟩)) outcome hgenerates
    exact ⟨hsame.code.trans hcode, hsame.output.trans houtput, hsame.files.trans hfiles⟩

end Session

end SchemaForge
