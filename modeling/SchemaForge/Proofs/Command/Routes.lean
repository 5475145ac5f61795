import SchemaForge.Proofs.Command.Import
import SchemaForge.Proofs.Command.Printed
import SchemaForge.Proofs.Import.Document

/-!
# `Proofs.Command.Routes` — two ways from a type to code

Code for an imported type can be emitted at once, or from a document that an earlier import printed.
Both ways fail alike if there is no type. If there is one, the document is read back as the schema
that the other way has in memory, and neither way of printing changes the code, so that the texts are
the same under the same settings.

## Contents
- **Documents.** `parse_trimmedLines_render`: the printed JSON document is read back.
- **Routes.** `output_run_import_module`, and `run_routes`, both routes side by side.
-/

namespace SchemaForge

open Document TypeScript

/-! ## The printed document -/

/-- The text of a JSON document ends in its brace. -/
theorem endsVisibly_render_json (schema : Schema) : EndsVisibly (Format.json.render schema) := by
  have hbrace : EndsVisibly "\x7d" := ⟨'\x7d', rfl, by decide⟩
  have htext : ∃ front, Format.json.render schema = front ++ "\x7d" := by
    show ∃ front, Json.valueText 0 (.table (("name", .text schema.name) :: _)) = front ++ "\x7d"
    rw [Json.valueText]
    exact ⟨_, rfl⟩
  obtain ⟨front, htext⟩ := htext
  rw [htext]
  exact hbrace.append_left front

/-- **The printed JSON document of an import is read back as the imported schema.** -/
theorem parse_trimmedLines_render {source : String} {schema : Schema}
    (himport : Import.schema source = .ok schema) (description : String) :
    Format.json.parse (Command.trimmedLines (Format.json.render (schema.describe description)))
      = some (schema.describe description) := by
  have hproduced := Import.isProduced_of_schema himport
  rw [Command.trimmedLines_of_endsVisibly (endsVisibly_render_json _)]
  exact hproduced.parse_json description
    (List.forall_mem_singleton.mpr (rfl : Json.isBlank '\n' = true))

/-! ## Both routes -/

namespace Session

/-- What a failed import looks like from outside: the exit code, the line about the error, and nothing
    printed. -/
structure FailsToImport (code : ExitCode) (after : Session) : Prop where
  code : code.number = 1
  messages : after.messages = [errorLine "no interface or type declaration found"]
  output : after.output = ""

theorem emission_module : Emission.ofName? "module" = some .module := rfl

/-- **What the direct route prints** is the code of the schema, on lines of its own. -/
theorem output_run_import_module {start : Session} {configHome path source : String}
    {flags : List String} {style : Layer} {schema : Schema}
    (hstyle : Arguments.styleOf? flags = some style) (hpath : Arguments.isSwitch path = false)
    (hne : path ≠ "") (hsource : start.sourceText path = .ok source)
    (himport : Import.schema source = .ok schema) :
    (start.run configHome ("import" :: path :: "--emit" :: "module" :: flags)).2.output
      = start.output ++ (SourceUnit.validatorAndType (schema.describe Command.importedDescription)
          ((start.configuration configHome).resolve style) ++ "\n") := by
  rw [run_import hstyle hpath hne (by decide) emission_module hsource, himport]
  dsimp only [print, Command.emitted]
  rw [output_afterReading, Command.trimmedLines_of_endsVisibly (endsVisibly_validatorAndType _ _)]

/-- **Emitting code at once and emitting it from the printed document agree.** The import succeeds
    under both forms of output or under none. If it succeeds, any later run under the same
    configuration files that finds the printed document under the path of a JSON file generates the
    same text from it with the same flags; otherwise both runs fail in the same way. -/
theorem run_routes {start direct document : Session} {configHome path source : String}
    {flags : List String} {style : Layer} {directCode documentCode : ExitCode}
    (hstyle : Arguments.styleOf? flags = some style) (hpath : Arguments.isSwitch path = false)
    (hne : path ≠ "") (hsource : start.sourceText path = .ok source)
    (houtput : start.output = "") (hmessages : start.messages = [])
    (hdirect : start.run configHome ("import" :: path :: "--emit" :: "module" :: flags)
      = (directCode, direct))
    (hdocument : start.run configHome ["import", path, "--emit", "json"]
      = (documentCode, document)) :
    (directCode = .success ↔ documentCode = .success) ∧
    (directCode = .success → ∀ (later : Session) (documentPath : String),
      later.output = "" → later.configuration configHome = start.configuration configHome →
      Format.ofPath? documentPath = some .json → Arguments.isSwitch documentPath = false →
      documentPath ≠ "" → later.sourceText documentPath = .ok document.output →
      ∃ after, later.run configHome ("generate" :: documentPath :: "--target" :: "module" :: flags)
          = (.success, after) ∧ after.output = direct.output) ∧
    (directCode ≠ .success →
      FailsToImport directCode direct ∧ FailsToImport documentCode document) := by
  have hplain : Arguments.styleOf? [] = some {} := rfl
  have hcode := congrArg (fun run : ExitCode × Session => run.2.output) hdirect
  have hjson : Emission.ofName? "json" = some (.document .json) := rfl
  rw [run_import hstyle hpath hne (by decide) emission_module hsource] at hdirect
  rw [run_import hplain hpath hne (by decide) hjson hsource] at hdocument
  cases himport : Import.schema source with
  | error error =>
      rw [himport] at hdirect hdocument
      obtain ⟨rfl, rfl⟩ := Prod.mk.inj hdirect
      obtain ⟨rfl, rfl⟩ := Prod.mk.inj hdocument
      have hfails : FailsToImport .failure
          ((start.afterReading path).say (errorLine error.message)) := by
        cases error
        exact
          { code := rfl
            messages := by rw [say, messages_afterReading, hmessages]; rfl
            output := by rw [say, output_afterReading, houtput] }
      exact ⟨Iff.rfl, fun h => (nomatch h), fun _ => ⟨hfails, hfails⟩⟩
  | ok schema =>
      rw [himport] at hdirect hdocument
      obtain ⟨rfl, -⟩ := Prod.mk.inj hdirect
      obtain ⟨rfl, rfl⟩ := Prod.mk.inj hdocument
      refine ⟨Iff.rfl, fun _ later documentPath hlater hconfiguration hformat hswitch hpathne htext => ?_,
        fun h => absurd rfl h⟩
      rw [print, output_afterReading, houtput, String.empty_append] at htext
      have hread := parse_trimmedLines_render himport Command.importedDescription
      refine ⟨_, run_generate hstyle hswitch hpathne hformat htext hread, ?_⟩
      dsimp only at hcode
      rw [← hcode, output_run_import_module hstyle hpath hne hsource himport, print,
        output_afterReading, hlater, houtput, hconfiguration]

/-- A source with a control character in a comment, and a project without semicolons. -/
def bellSession : Session where
  files :=
    { contents :=
        [(["user.ts"],
           .text "interface User \x7b\n  /** The \u0007 bell. */\n  tags?: string[];\n\x7d\n"),
         ([".zodsmith", "config.toml"], .text "[output]\nsemicolons = false\n")] }

/-- What is imported of it. -/
def bellSchema : Schema where
  name := "User"
  fields :=
    [{ name := "tags", required := false, description := some "The \u0007 bell.",
       rules := .arrayOf .string }]

/-- The import that prints its document. -/
def bellImport : ExitCode × Session :=
  bellSession.run "/home" ["import", "user.ts", "--emit", "json"]

/-- A session with the document beside the source. -/
def bellLater : Session where
  files :=
    { bellSession.files with
      contents := (["user.json"], .text bellImport.2.output) :: bellSession.files.contents }

/-- Both ways give the same code of it, and both fail on a text without a type. -/
theorem run_routes_bell :
    (∃ after, bellLater.run "/home" ["generate", "user.json", "--target", "module",
        "--type-style=interface", "--schema-suffix", "S"] = (.success, after) ∧
      after.output = "import \x7b z \x7d from 'zod'\n\n/**\n * Imported from TypeScript\n */\n"
        ++ "export const UserS = z.object(\x7b\n  /** The \u0007 bell. */\n"
        ++ "  tags: z.array(z.string()).optional()\n\x7d)\n\n/**\n * Imported from TypeScript\n */\n"
        ++ "export interface User \x7b\n  /** The \u0007 bell. */\n  tags?: string[]\n\x7d\n") ∧
    FailsToImport
      (({ input := "let x" } : Session).run "/home" ["import", "-", "--emit", "json"]).1
      (({ input := "let x" } : Session).run "/home" ["import", "-", "--emit", "json"]).2 := by
  have hstyle : Arguments.styleOf? ["--type-style=interface", "--schema-suffix", "S"]
      = some { typeStyle := some .interface, schemaSuffix := some "S" } := rfl
  have hcode := @output_run_import_module bellSession "/home" "user.ts" _ _ _ bellSchema hstyle rfl
    (by decide) rfl rfl
  have hdirect := @run_routes bellSession _ bellImport.2 "/home" "user.ts" _ _ _ _ bellImport.1
    hstyle rfl (by decide) rfl rfl rfl Prod.mk.eta.symm Prod.mk.eta.symm
  obtain ⟨after, hrun, houtput⟩ := hdirect.2.1 (hdirect.1.mpr (by decide +kernel)) bellLater
    "user.json" rfl rfl rfl rfl (by decide) rfl
  have hplain : Arguments.styleOf? [] = some {} := rfl
  have hfails := @run_routes { input := "let x" } _ _ "/home" "-" _ _ _ _ _ hplain rfl (by decide)
    rfl rfl rfl rfl rfl
  exact ⟨⟨after, hrun, (houtput.trans hcode).trans (by decide +kernel)⟩, (hfails.2.2 (by decide)).2⟩

end Session

end SchemaForge
