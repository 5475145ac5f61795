import SchemaForge.Command.Session
import SchemaForge.Proofs.Command.Arguments

/-!
# `Proofs.Command.Import` — runs with one source

A run that imports a type, or that generates code for one document, reads one source and prints one
text or says one line. The lemmas give the whole outcome of such a run from its arguments and from
what the source holds.

## Contents
- **Sources.** `Session.sourceText` and `Session.afterReading`, and `readSources_cons`.
- **Effects.** `effects_import` and `effects_generate`.
- **Runs.** `run_import` and `run_generate`.
-/

namespace SchemaForge.Session

open Document

variable {session : Session} {configHome path : String} {arguments : List String} {style : Layer}

/-! ## Sources -/

/-- What a path names in a session. -/
def sourceText (session : Session) (path : String) : Except FileError String :=
  if path = Format.standardInput then session.input.read else session.files.read path

/-- A session after it has read a path. -/
def afterReading (session : Session) (path : String) : Session :=
  if path = Format.standardInput then { session with input := .text "" } else session

/-- Sources are read one after the other. -/
theorem readSources_cons (session : Session) (path : String) (paths : List String) :
    session.readSources (path :: paths)
      = (⟨path, session.sourceText path⟩ :: ((session.afterReading path).readSources paths).1,
          ((session.afterReading path).readSources paths).2) := by
  unfold sourceText afterReading
  rw [readSources]
  by_cases hpath : path = Format.standardInput
  · rw [if_pos hpath, if_pos hpath, if_pos hpath]
  · rw [if_neg hpath, if_neg hpath, if_neg hpath]

theorem readSources_singleton (session : Session) (path : String) :
    session.readSources [path]
      = ([⟨path, session.sourceText path⟩], session.afterReading path) := by
  rw [readSources_cons]
  rfl

@[simp] theorem files_afterReading (session : Session) (path : String) :
    (session.afterReading path).files = session.files := by
  unfold afterReading
  split <;> rfl

@[simp] theorem output_afterReading (session : Session) (path : String) :
    (session.afterReading path).output = session.output := by
  unfold afterReading
  split <;> rfl

@[simp] theorem messages_afterReading (session : Session) (path : String) :
    (session.afterReading path).messages = session.messages := by
  unfold afterReading
  split <;> rfl

/-! ## Effects -/

theorem effects_import (configuration : Configuration) (path : String) (emission : Emission)
    (style : Layer) (source : String) :
    Command.effects configuration [⟨path, .ok source⟩] (.importType path emission style) =
      match TypeScript.Import.schema source with
      | .ok schema   => .ok [.print (Command.trimmedLines (Command.emitted emission
          (configuration.resolve style) (schema.describe Command.importedDescription)))]
      | .error error => .error (.unimportable error) := by
  have hbind : Command.effects configuration [⟨path, .ok source⟩] (.importType path emission style)
      = (Command.imported source).bind fun schema => .ok [.print (Command.trimmedLines
          (Command.emitted emission (configuration.resolve style) schema))] := rfl
  rw [hbind]
  unfold Command.imported
  cases TypeScript.Import.schema source with
  | ok schema   => rfl
  | error error => rfl

theorem schema_source {path : String} {format : Format} (hformat : Format.ofPath? path = some format)
    {text : String} {schema : Schema} (hschema : format.parse text = some schema) :
    Command.Source.schema ⟨path, .ok text⟩ = .ok schema := by
  unfold Command.Source.schema Command.Source.text
  dsimp only
  rw [hformat]
  dsimp only [bind, Except.bind]
  rw [hschema]

theorem effects_generate (configuration : Configuration) {path : String} {format : Format}
    (hformat : Format.ofPath? path = some format) {text : String} {schema : Schema}
    (hschema : format.parse text = some schema) (style : Layer) :
    Command.effects configuration [⟨path, .ok text⟩] (.generate [path] "module" .standardOutput style)
      = .ok [.print (SourceUnit.validatorAndType schema (configuration.resolve style) ++ "\n")] := by
  have hload : [(⟨path, .ok text⟩ : Command.Source)].mapM Command.Source.schema = .ok [schema] := by
    rw [List.mapM_cons, schema_source hformat hschema]
    rfl
  have hbind : Command.effects configuration [⟨path, .ok text⟩]
      (.generate [path] "module" .standardOutput style)
      = ([(⟨path, .ok text⟩ : Command.Source)].mapM Command.Source.schema).bind fun schemas =>
          .ok (Command.generateEffects Backend.module (configuration.resolve style) schemas
            .standardOutput) := rfl
  rw [hbind, hload]
  show Except.ok [Effect.print (Command.joined [_] ++ "\n")] = _
  unfold Command.joined
  rw [String.intercalate_singleton]
  rfl

/-! ## Runs -/

/-- **The outcome of an import.** A schema is printed as it was asked for; where there is none, that is
    said. -/
theorem run_import (hstyle : Arguments.styleOf? arguments = some style)
    (hpath : Arguments.isSwitch path = false) (hne : path ≠ "") {word : String}
    (hword : Arguments.isSwitch word = false) {emission : Emission}
    (hemission : Emission.ofName? word = some emission) {source : String}
    (hsource : session.sourceText path = .ok source) :
    session.run configHome ("import" :: path :: "--emit" :: word :: arguments) =
      match TypeScript.Import.schema source with
      | .ok schema   => (.success, (session.afterReading path).print (Command.trimmedLines
          (Command.emitted emission ((session.configuration configHome).resolve style)
            (schema.describe Command.importedDescription))))
      | .error error => (.failure, (session.afterReading path).say (errorLine error.message)) := by
  have hinvocation : Arguments.Invocation.ofArguments?
      ("import" :: path :: "--emit" :: word :: arguments)
        = some (.command (.importType path emission style)) := by
    show (Arguments.import? _).map _ = _
    rw [Arguments.import?_eq hstyle hpath hne hword hemission]
    rfl
  unfold run
  rw [hinvocation]
  dsimp only
  unfold runCommand Command.inputs
  rw [readSources_singleton, hsource]
  dsimp only
  rw [effects_import]
  cases TypeScript.Import.schema source with
  | ok schema   => rfl
  | error error => rfl

/-- **The outcome of generating a module for one document.** -/
theorem run_generate (hstyle : Arguments.styleOf? arguments = some style)
    (hpath : Arguments.isSwitch path = false) (hne : path ≠ "") {format : Format}
    (hformat : Format.ofPath? path = some format) {text : String}
    (htext : session.sourceText path = .ok text) {schema : Schema}
    (hschema : format.parse text = some schema) :
    session.run configHome ("generate" :: path :: "--target" :: "module" :: arguments)
      = (.success, (session.afterReading path).print
          (SourceUnit.validatorAndType schema ((session.configuration configHome).resolve style)
            ++ "\n")) := by
  have hinvocation : Arguments.Invocation.ofArguments?
      ("generate" :: path :: "--target" :: "module" :: arguments)
        = some (.command (.generate [path] "module" .standardOutput style)) := by
    show (Arguments.generate? _).map _ = _
    rw [Arguments.generate?_eq hstyle hpath hne (by decide)]
    rfl
  unfold run
  rw [hinvocation]
  dsimp only
  unfold runCommand Command.inputs
  rw [readSources_singleton, htext]
  dsimp only
  rw [effects_generate _ hformat hschema]
  rfl

end SchemaForge.Session
