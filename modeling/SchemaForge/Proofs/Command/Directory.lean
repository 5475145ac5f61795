import Mathlib.Data.List.Dedup
import SchemaForge.Proofs.Command.Import
import SchemaForge.Proofs.Files.Writing
import SchemaForge.Proofs.Text.Split

/-!
# `Proofs.Command.Directory` — code written into a directory

Generating into a directory writes one text for each schema, in order, to a path made of the
directory and the schema's name. Nothing is asked of the name: two schemas may have the same path, of
which only the last one's code is kept, and a name with slashes may lead out of the directory, up to
the root if it starts with one. As long as the paths lead to different places, each of them holds the
code of its schema; as long as they lead into the directory, nothing outside of it changes.

## Contents
- **Reading.** `files_readSources` and `length_readSources`: reading changes no file.
- **Writing.** `hasWritten_of_performAll`, writes performed one after the other.
- **Places.** `outputPlace_eq`: names without slashes lead into the directory.
- **Generating.** `runCommand_generate_directory`.
-/

namespace SchemaForge

/-! ## Reading sources -/

/-- Actions on a list succeed together when each of them does, and fail as one of them does. -/
theorem mapM_cases {α β ε : Type} (f : α → Except ε β) (list : List α) :
    (∃ results, list.mapM f = .ok results ∧ list.map f = results.map .ok) ∨
      ∃ failure, list.mapM f = .error failure ∧ ∃ x ∈ list, f x = .error failure := by
  induction list with
  | nil => exact Or.inl ⟨[], List.mapM_nil, rfl⟩
  | cons x list ih =>
      rw [List.mapM_cons]
      cases hx : f x with
      | error failure => exact Or.inr ⟨failure, rfl, x, List.mem_cons_self, hx⟩
      | ok y =>
          rcases ih with ⟨ys, hrest, hmap⟩ | ⟨failure, hrest, x', hmem, hfailure⟩
          · rw [hrest]
            exact Or.inl ⟨y :: ys, rfl, by rw [List.map_cons, List.map_cons, hx, hmap]⟩
          · rw [hrest]
            exact Or.inr ⟨failure, rfl, x', List.mem_cons_of_mem _ hmem, hfailure⟩

theorem length_eq_of_mapM_eq_ok {α β ε : Type} {f : α → Except ε β} {list : List α}
    {results : List β} (h : list.mapM f = .ok results) : results.length = list.length := by
  rcases mapM_cases f list with ⟨results', hresults, hmap⟩ | ⟨failure, hfailure, -⟩
  · obtain rfl := Except.ok.inj (h.symm.trans hresults)
    have hlength := congrArg List.length hmap
    rwa [List.length_map, List.length_map, eq_comm] at hlength
  · exact nomatch h.symm.trans hfailure

namespace Session

/-- Reading changes no file. -/
theorem files_readSources (session : Session) (paths : List String) :
    (session.readSources paths).2.files = session.files := by
  induction paths generalizing session with
  | nil => rfl
  | cons path paths ih => rw [readSources_cons, ih, files_afterReading]

/-- Every path has its source. -/
theorem length_readSources (session : Session) (paths : List String) :
    (session.readSources paths).1.length = paths.length := by
  induction paths generalizing session with
  | nil => rfl
  | cons path paths ih =>
      rw [readSources_cons, List.length_cons, List.length_cons, ih (session.afterReading path)]

/-! ## Performing writes -/

theorem performAll_cons_eq_success {session after : Session} {effect : Effect}
    {effects : List Effect} (h : session.performAll (effect :: effects) = (.success, after)) :
    ∃ next, session.perform effect = (.ok (), next) ∧
      next.performAll effects = (.success, after) := by
  rw [performAll] at h
  rcases hperform : session.perform effect with ⟨_ | _, next⟩
  · rw [hperform] at h
    exact nomatch h
  · rw [hperform] at h
    exact ⟨next, rfl, h⟩

/-- **Writes that succeed one after the other leave the last text at each place.** -/
theorem hasWritten_of_performAll {session after : Session} {writes : List (String × String)}
    (h : session.performAll (writes.map fun write => .write write.1 write.2) = (.success, after)) :
    session.files.HasWritten after.files writes := by
  induction writes generalizing session with
  | nil =>
      obtain rfl : session = after := (Prod.mk.inj h).2
      exact .nil session.files
  | cons write writes ih =>
      obtain ⟨next, hperform, hrest⟩ := performAll_cons_eq_success h
      cases hwrite : session.files.write? write.1 write.2 with
      | error cause => rw [Session.perform, hwrite] at hperform; exact nomatch hperform
      | ok files =>
          rw [Session.perform, hwrite] at hperform
          obtain rfl := (Prod.mk.inj hperform).2
          exact .cons hwrite (ih hrest)

end Session

/-! ## Places in a directory -/

namespace Command

/-- The place that the path of a schema's file leads to. -/
def outputPlace (files : Files) (directory : String) (backend : Backend) (schema : Schema) : Place :=
  files.placeOf (outputPath directory backend schema)

theorem extension_of_find? {target : String} {backend : Backend}
    (h : Registry.initial.find? target = some backend) : backend.extension = "ts" := by
  have hmem : backend ∈ Backend.builtin := List.mem_of_find?_eq_some h
  simp only [Backend.builtin, List.mem_cons, List.not_mem_nil, or_false] at hmem
  rcases hmem with rfl | rfl | rfl | rfl <;> rfl

theorem isAbsolute_eq_false {name : String} (hslash : '/' ∉ name.toList) :
    Path.isAbsolute name = false := by
  unfold Path.isAbsolute
  cases hlist : name.toList with
  | nil => rfl
  | cons c rest =>
      have hc : c ≠ '/' := by
        rintro rfl
        exact hslash (by rw [hlist]; simp)
      simpa using hc

/-- A path that ends in a name without slashes starts where its directory starts. -/
theorem isAbsolute_join {directory name : String} (hslash : '/' ∉ name.toList) :
    Path.isAbsolute (Path.join directory name) = Path.isAbsolute directory := by
  have hrelative := isAbsolute_eq_false hslash
  unfold Path.join
  rw [hrelative, Bool.false_or]
  split
  · rename_i hroot
    rw [hrelative, of_decide_eq_true hroot]
    rfl
  · rename_i hroot
    have hne : directory.toList ≠ [] :=
      fun he => hroot (decide_eq_true (String.toList_eq_nil_iff.mp he))
    have hhead : ∀ rest, (directory.toList ++ rest).head? = directory.toList.head? :=
      fun rest => List.head?_append_of_ne_nil _ hne
    unfold Path.isAbsolute
    split
    · rw [String.toList_append, hhead]
    · rw [String.toList_append, String.toList_append, List.append_assoc, hhead]

/-- A name without slashes is the last step of a path in a directory. -/
theorem steps_join {directory name : String} (hname : name ≠ "") (hslash : '/' ∉ name.toList) :
    Path.steps (Path.join directory name) = Path.steps directory ++ [name] := by
  have hne : name.toList ≠ [] := fun he => hname (String.toList_eq_nil_iff.mp he)
  have hrelative := isAbsolute_eq_false hslash
  have hsteps : ∀ front : List Char,
      ((Text.split '/' (front ++ '/' :: name.toList)).filter fun step => step ≠ []).map String.ofList
        = ((Text.split '/' front).filter fun step => step ≠ []).map String.ofList ++ [name] := by
    intro front
    rw [Text.split_append_cons, Text.split_of_not_mem hslash, List.filter_append, List.map_append,
      List.filter_cons_of_pos (by simpa using hne), List.filter_nil, List.map_singleton,
      String.ofList_toList]
  unfold Path.join
  rw [hrelative, Bool.false_or]
  split
  · -- no directory
    rename_i hroot
    rw [of_decide_eq_true hroot]
    unfold Path.steps
    rw [Text.split_of_not_mem hslash, List.filter_cons_of_pos (by simpa using hne), List.filter_nil,
      List.map_singleton, String.ofList_toList]
    rfl
  · split
    · -- a directory with a slash at its end: the step after that slash is empty
      rename_i hend
      obtain ⟨front, hfront⟩ : ∃ front, directory.toList = front ++ ['/'] := by
        have hlast : directory.toList.getLast? = some '/' := by
          simpa [Path.endsInSlash] using hend
        obtain ⟨front, hfront⟩ := List.getLast?_eq_some_iff.mp hlast
        exact ⟨front, hfront⟩
      unfold Path.steps
      rw [String.toList_append, hfront, List.append_assoc, List.singleton_append, hsteps,
        Text.split_append_cons, List.filter_append]
      simp [Text.split]
    · -- a directory without one
      unfold Path.steps
      rw [String.toList_append, String.toList_append, List.append_assoc]
      exact hsteps directory.toList

/-- **A name without slashes leads into the directory**, to a file of its own. -/
theorem outputPlace_eq (files : Files) {target directory : String} {backend : Backend}
    (hbackend : Registry.initial.find? target = some backend) {schema : Schema}
    (hslash : '/' ∉ schema.name.toList) :
    outputPlace files directory backend schema
      = files.placeOf directory ++ [schema.name ++ ".ts"] := by
  have hfile : schema.name ++ "." ++ backend.extension = schema.name ++ ".ts" := by
    rw [extension_of_find? hbackend, String.append_assoc]
    rfl
  have hlast : (schema.name ++ ".ts").toList.getLast? = some 's' := by
    rw [String.toList_append]
    simp
  have hne : ∀ other : String, other.toList.getLast? ≠ some 's' → schema.name ++ ".ts" ≠ other := by
    rintro other hother rfl
    exact hother hlast
  have hslash' : '/' ∉ (schema.name ++ ".ts").toList := by
    rw [String.toList_append]
    simp [hslash]
  have hsteps := @steps_join directory (schema.name ++ ".ts") (hne "" (by decide)) hslash'
  unfold outputPlace outputPath Files.placeOf Files.start Files.resolve
  rw [hfile, hsteps, isAbsolute_join hslash', List.foldl_append]
  show Files.step _ (schema.name ++ ".ts") = _
  rw [Files.step, if_neg (hne "." (by decide)), if_neg (hne ".." (by decide))]

/-- Distinct names without slashes lead to distinct places. -/
theorem nodup_outputPlace (files : Files) {target directory : String} {backend : Backend}
    (hbackend : Registry.initial.find? target = some backend) {schemas : List Schema}
    (hnames : (schemas.map Schema.name).Nodup)
    (hslash : ∀ schema ∈ schemas, '/' ∉ schema.name.toList) :
    (schemas.map (outputPlace files directory backend)).Nodup := by
  have hplaces : schemas.map (outputPlace files directory backend)
      = (schemas.map Schema.name).map fun name => files.placeOf directory ++ [name ++ ".ts"] := by
    rw [List.map_map]
    exact List.map_congr_left fun schema hschema =>
      outputPlace_eq files hbackend (hslash schema hschema)
  rw [hplaces]
  refine hnames.map fun name name' he => ?_
  have hlast : name ++ ".ts" = name' ++ ".ts" := (List.cons.inj (List.append_cancel_left he)).1
  have hlist := congrArg String.toList hlast
  rw [String.toList_append, String.toList_append] at hlist
  exact String.toList_inj.mp (List.append_cancel_right hlist)

end Command

/-! ## Generating into a directory -/

namespace Session

/-- The writes of generating into a directory: each schema's path and its code on lines of its
    own. -/
def directoryWrites (directory : String) (backend : Backend) (settings : Settings)
    (schemas : List Schema) : List (String × String) :=
  schemas.map fun schema =>
    (Command.outputPath directory backend schema, backend.generate schema settings ++ "\n")

/-- **A run that generates into a directory and succeeds has made the directory and written each
    schema's code.** -/
theorem hasWritten_of_runCommand {session after : Session} {configHome target directory : String}
    {inputs : List String} {style : Layer} {backend : Backend} {schemas : List Schema}
    (hbackend : Registry.initial.find? target = some backend)
    (hload : (session.readSources inputs).1.mapM Command.Source.schema = .ok schemas)
    (hrun : session.runCommand configHome (.generate inputs target (.directory directory) style)
      = (.success, after)) :
    ∃ made : Files, session.files.HasMade directory (.ok (), made) ∧
      made.HasWritten after.files (directoryWrites directory backend
        ((session.configuration configHome).resolve style) schemas) := by
  have heffects : Command.effects (session.configuration configHome) (session.readSources inputs).1
      (.generate inputs target (.directory directory) style)
      = .ok (.createDirectories directory :: (directoryWrites directory backend
          ((session.configuration configHome).resolve style) schemas).map
            fun write => .write write.1 write.2) := by
    rw [Command.effects, hbackend]
    dsimp only
    rw [hload, directoryWrites, List.map_map]
    rfl
  unfold runCommand at hrun
  rw [Command.inputs] at hrun
  dsimp only at hrun
  rw [heffects] at hrun
  obtain ⟨next, hcreate, hwrites⟩ := performAll_cons_eq_success hrun
  have hmade := (session.readSources inputs).2.files.hasMade_createDirectories directory
  rw [session.files_readSources] at hmade
  refine ⟨next.files, ?_, hasWritten_of_performAll hwrites⟩
  rw [Session.perform, session.files_readSources] at hcreate
  rcases houtcome : (Files.createDirectories directory).run session.files with ⟨result, made⟩
  rw [houtcome] at hmade hcreate
  obtain ⟨rfl, rfl⟩ := Prod.mk.inj hcreate
  exact hmade

/-- **Generating into a directory, as far as it goes.** A run that succeeds has made the directory and
    has as many schemas as inputs, and each place has the code of the last schema that leads to it, or
    what it had before. It writes as many files as there are inputs exactly if no two schemas lead to
    the same place; then each path leads to the code of its schema. If they all lead into the
    directory, nothing outside of it changes. Distinct names without slashes do both. -/
theorem runCommand_generate_directory {session after : Session}
    {configHome target directory : String} {inputs : List String} {style : Layer}
    {backend : Backend} {schemas : List Schema} {settings : Settings} {place : Schema → Place}
    (hsettings : settings = (session.configuration configHome).resolve style)
    (hplace : place = Command.outputPlace session.files directory backend)
    (hbackend : Registry.initial.find? target = some backend)
    (hload : (session.readSources inputs).1.mapM Command.Source.schema = .ok schemas)
    (hrun : session.runCommand configHome (.generate inputs target (.directory directory) style)
      = (.success, after)) :
    schemas.length = inputs.length ∧
    (directory ≠ "" → after.files.leadsToDirectory directory = true) ∧
    (∀ other, after.files.content? other
      = ((schemas.map fun schema => (place schema,
            Content.text (backend.generate schema settings ++ "\n"))).reverse.lookup other).or
          (session.files.content? other)) ∧
    ((schemas.map place).dedup.length = inputs.length ↔ (schemas.map place).Nodup) ∧
    ((schemas.map place).Nodup → ∀ schema ∈ schemas,
      after.files.HasText (Command.outputPath directory backend schema)
        (backend.generate schema settings ++ "\n")) ∧
    ((∀ schema ∈ schemas, session.files.placeOf directory <+: place schema) →
      ∀ other, ¬ session.files.placeOf directory <+: other →
        after.files.content? other = session.files.content? other) ∧
    ((schemas.map Schema.name).Nodup → (∀ schema ∈ schemas, '/' ∉ schema.name.toList) →
      (schemas.map place).Nodup ∧
      ∀ schema ∈ schemas, session.files.placeOf directory <+: place schema) := by
  obtain ⟨made, hmade, hwritten⟩ := hasWritten_of_runCommand hbackend hload hrun
  obtain ⟨directories, rfl⟩ := hmade.directories
  rw [← hsettings] at hwritten
  subst hplace
  have hplaces : (directoryWrites directory backend settings schemas).map
      (fun write => session.files.placeOf write.1)
        = schemas.map (Command.outputPlace session.files directory backend) := by
    rw [directoryWrites, List.map_map]
    rfl
  have hlength : schemas.length = inputs.length := by
    rw [length_eq_of_mapM_eq_ok hload, length_readSources]
  refine ⟨hlength, fun hne => ?_, fun place => ?_, ?_, fun hdistinct schema hschema => ?_,
    fun hinside place hplace => ?_, fun hnames hslash => ⟨?_, fun schema hschema => ?_⟩⟩
  · exact hwritten.same.leadsToDirectory (hmade.leadsToDirectory hne rfl)
  · rw [hwritten.content? place, directoryWrites, List.map_map]
    rfl
  · -- the places without repetitions are as many as the inputs exactly if none is repeated
    rw [← hlength, ← List.length_map (Command.outputPlace session.files directory backend)]
    constructor
    · intro hcount
      rw [← (List.dedup_sublist _).eq_of_length hcount]
      exact List.nodup_dedup _
    · intro hdistinct
      rw [hdistinct.dedup]
  · exact hwritten.hasText (hplaces ▸ hdistinct) _ (List.mem_map_of_mem hschema)
  · refine hwritten.content?_of_not_mem fun hmem => ?_
    obtain ⟨schema, hschema, rfl⟩ := List.mem_map.mp (hplaces ▸ hmem)
    exact hplace (hinside schema hschema)
  · exact Command.nodup_outputPlace session.files hbackend hnames hslash
  · rw [Command.outputPlace_eq session.files hbackend (hslash schema hschema)]
    exact List.prefix_append _ _

/-- A session that works in one of several directories, with two documents there, one of them named
    with dots, an older file where the other one's code goes, a file that is no text beside that
    directory, and configuration files that set different keys. -/
def twoDocuments : Session where
  files :=
    { workingDirectory := ["work"]
      contents :=
        [(["work", "a.json"], .text "\x7b\"name\":\"User\",\"fields\":[]\x7d"),
         (["work", "b.json"], .text "\x7b\"name\":\"..\",\"fields\":[]\x7d"),
         (["work", ".zodsmith", "config.toml"], .text "[output]\ntype_style = \"interface\"\n"),
         (["home", "zodsmith", "config.toml"],
           .text "[output]\ntype_style = \"infer\"\ntype_name_suffix = \"Dto\"\n"),
         (["gen", "User.ts"], .text "old"), (["gen.json"], .binary)] }

/-- Both documents as interfaces in a directory that is reached on a detour. -/
def generateBoth : Command :=
  .generate ["a.json", "/work/b.json"] "typescript" (.directory "../gen/x/..") {}

/-- A schema without fields is known by its name and its description. -/
theorem eq_of_parts {schema : Schema} {name : String}
    (h : (schema.name, schema.description, schema.fields.length) = (name, none, 0)) :
    schema = { name } := by
  obtain ⟨schemaName, description, fields⟩ := schema
  obtain ⟨rfl, rfl, hlength⟩ : schemaName = name ∧ description = none ∧ fields.length = 0 := by
    simpa using h
  rw [List.length_eq_zero_iff.mp hlength]

theorem mapM_schema_twoDocuments :
    (twoDocuments.readSources ["a.json", "/work/b.json"]).1.mapM Command.Source.schema
      = .ok [{ name := "User" }, { name := ".." }] := by
  have hparts : (((twoDocuments.readSources ["a.json", "/work/b.json"]).1.mapM
        Command.Source.schema).map
      (List.map fun schema => (schema.name, schema.description, schema.fields.length))).toOption
      = some [("User", none, 0), ("..", none, 0)] := by
    decide +kernel
  cases hload : (twoDocuments.readSources ["a.json", "/work/b.json"]).1.mapM
      Command.Source.schema with
  | error failure => rw [hload] at hparts; exact nomatch hparts
  | ok schemas =>
      rw [hload] at hparts
      obtain ⟨first, rest, rfl, hfirst, hrest⟩ := List.map_eq_cons_iff.mp (Option.some.inj hparts)
      obtain ⟨second, rest, rfl, hsecond, hnil⟩ := List.map_eq_cons_iff.mp hrest
      rw [eq_of_parts hfirst, eq_of_parts hsecond, List.map_eq_nil_iff.mp hnil]

/-- The code of both documents is in the directory, and the file beside it is as it was. -/
theorem runCommand_generate_directory_twoDocuments :
    ∃ after, twoDocuments.runCommand "/home" generateBoth = (.success, after) ∧
      (∀ file ∈ [("../gen/x/../User.ts", "export interface UserDto \x7b\n\x7d\n"),
          ("../gen/x/../...ts", "export interface ..Dto \x7b\n\x7d\n")],
        after.files.HasText file.1 file.2) ∧
      after.files.text? ["gen", "User.ts"] = some "export interface UserDto \x7b\n\x7d\n" ∧
      after.files.content? ["gen.json"] = some .binary := by
  have hsuccess : (twoDocuments.runCommand "/home" generateBoth).1 = .success := by decide +kernel
  obtain ⟨after, hrun⟩ : ∃ after, twoDocuments.runCommand "/home" generateBoth = (.success, after) :=
    ⟨(twoDocuments.runCommand "/home" generateBoth).2, by rw [← hsuccess]⟩
  have hsettings : { typeStyle := .interface, typeSuffix := "Dto" : Settings }
      = (twoDocuments.configuration "/home").resolve {} := by
    decide +kernel
  have hbackend : Registry.initial.find? "typescript" = some Backend.typescript := rfl
  have hcodes : [("../gen/x/../User.ts", "export interface UserDto \x7b\n\x7d\n"),
        ("../gen/x/../...ts", "export interface ..Dto \x7b\n\x7d\n")]
      = [{ name := "User" }, { name := ".." }].map fun schema =>
          (Command.outputPath "../gen/x/.." Backend.typescript schema,
            Backend.typescript.generate schema { typeStyle := .interface, typeSuffix := "Dto" }
              ++ "\n") := by
    decide +kernel
  obtain ⟨-, -, hcontent, -, hread, hframe, hnames⟩ :=
    runCommand_generate_directory hsettings rfl hbackend mapM_schema_twoDocuments hrun
  obtain ⟨hdistinct, hinside⟩ := hnames (by decide) (by decide)
  refine ⟨after, hrun, fun file hfile => ?_, ?_, ?_⟩
  · rw [hcodes] at hfile
    obtain ⟨schema, hschema, rfl⟩ := List.mem_map.mp hfile
    exact hread hdistinct schema hschema
  · rw [Files.text?, hcontent]
    decide +kernel
  · rw [hframe hinside ["gen.json"] (by decide +kernel)]
    rfl

/-- Of two schemas with one name only one file is left, although the run succeeds. -/
example :
    (twoDocuments.runCommand "/home"
        (.generate ["a.json", "a.json"] "typescript" (.directory "out") {})).1 = .success ∧
      (twoDocuments.runCommand "/home"
          (.generate ["a.json", "a.json"] "typescript" (.directory "out") {})).2.files.contents.length
        = twoDocuments.files.contents.length + 1 := by
  decide +kernel

/-- A name from the root leads out of any directory. -/
example : Command.outputPlace twoDocuments.files "out" .typescript { name := "/home/User" }
    = ["home", "User.ts"] := by
  decide +kernel

end Session

end SchemaForge
