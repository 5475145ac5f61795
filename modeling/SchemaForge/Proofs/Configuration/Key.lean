import SchemaForge.Command.Arguments
import SchemaForge.Configuration

/-!
# `Proofs.Configuration.Key` — settings are resolved key by key

The settings of a command come from four sources: the flags, the file of the project, the file of the
user and the usual values. Layers are merged and applied as records of six keys. Seen through one key
both are the choice between two values that may be missing, so each key has the value of the topmost
source that sets it, whatever the other keys do. A file sets keys only if all that it says of them can
be read.

## Contents
- **Keys.** `Key`, with its value in a layer and in settings.
- **Sources.** `Key.ofGiven`, what flags set, and `Sets`, what a file sets.
- **Files.** `ofLayer_ofFile_eq_some`: the layer of a file holds what the file sets.
- **Layers.** One lemma for each operation on layers, for every key.
- **Flags.** `ofLayer_of_style?`.
- **Resolution.** `Topmost`, and `resolve_keys`.
-/

namespace SchemaForge

open Document

/-! ## Keys -/

/-- A key of the settings. -/
inductive Key where
  | typeStyle
  | exports
  | schemaSuffix
  | typeSuffix
  | comments
  | semicolons
deriving DecidableEq

namespace Key

/-- What a key can be set to. -/
abbrev Value : Key → Type
  | typeStyle    => TypeStyle
  | exports      => Bool
  | schemaSuffix => String
  | typeSuffix   => String
  | comments     => Bool
  | semicolons   => Bool

/-- The name of a key in a configuration file. -/
def name : Key → String
  | typeStyle    => "type_style"
  | exports      => "include_exports"
  | schemaSuffix => "schema_name_suffix"
  | typeSuffix   => "type_name_suffix"
  | comments     => "include_comments"
  | semicolons   => "semicolons"

/-- The value that a node of a configuration file gives a key. -/
def read? : (key : Key) → Node → Option key.Value
  | typeStyle    => TypeStyle.ofSetting?
  | exports      => Node.bool? .direct
  | schemaSuffix => Node.text? .direct
  | typeSuffix   => Node.text? .direct
  | comments     => Node.bool? .direct
  | semicolons   => Node.bool? .direct

/-- The value of a key that no source sets. -/
def usual : (key : Key) → key.Value
  | typeStyle    => .infer
  | exports      => true
  | schemaSuffix => "Schema"
  | typeSuffix   => ""
  | comments     => true
  | semicolons   => true

/-- What a layer sets a key to. -/
def ofLayer : (key : Key) → Layer → Option key.Value
  | typeStyle    => Layer.typeStyle
  | exports      => Layer.exports
  | schemaSuffix => Layer.schemaSuffix
  | typeSuffix   => Layer.typeSuffix
  | comments     => Layer.comments
  | semicolons   => Layer.semicolons

/-- The value of a key in settings. -/
def ofSettings : (key : Key) → Settings → key.Value
  | typeStyle    => Settings.typeStyle
  | exports      => Settings.exports
  | schemaSuffix => Settings.schemaSuffix
  | typeSuffix   => Settings.typeSuffix
  | comments     => Settings.comments
  | semicolons   => Settings.semicolons

/-- What the flags of a command set a key to. A flag without a value switches its key off. -/
def ofGiven : (key : Key) → Arguments.Given → Option key.Value
  | typeStyle, given    => (given.value? .typeStyle).bind TypeStyle.ofName?
  | exports, given      => if given.hasFlag .noExports then some false else none
  | schemaSuffix, given => given.value? .schemaSuffix
  | typeSuffix, given   => given.value? .typeSuffix
  | comments, given     => if given.hasFlag .noComments then some false else none
  | semicolons, given   => if given.hasFlag .noSemicolons then some false else none

end Key

/-! ## Sources -/

/-- Whether a node is a section that can be used as a whole: of the known keys each is there at most
    once, with a node that can be read. -/
structure IsSection (node : Node) (members : Members) : Prop where
  known : Layer.members? node = some members
  readable : ∀ (key : Key) (node : Node), members.lookup key.name = some node →
    ∃ value, key.read? node = some value

/-- What a configuration text says in its table `output`, if the text can be used as a whole. -/
inductive HasSection (text : String) : Members → Prop where
  | missing {root : Node} {members : Members} (hroot : Toml.read? text = some root)
      (hmembers : root.members? .direct ["output"] = some members)
      (houtput : members.lookup "output" = none) : HasSection text []
  | present {root node : Node} {members entries : Members} (hroot : Toml.read? text = some root)
      (hmembers : root.members? .direct ["output"] = some members)
      (houtput : members.lookup "output" = some node) (h : IsSection node entries) :
      HasSection text entries

/-- What a file sets a key to. One that is missing, or cannot be used as a whole, sets no key. -/
def Sets (file : Except FileError String) (key : Key) (value : key.Value) : Prop :=
  ∃ text members node, file = .ok text ∧ HasSection text members ∧
    members.lookup key.name = some node ∧ key.read? node = some value

/-! ## Files -/

variable {text : String} {members : Members} {layer : Layer} {key : Key}

namespace Layer

/-- What a key of a section is set to; nothing if it is there and cannot be read. -/
def setting? (key : Key) (members : Members) : Option (Option key.Value) :=
  members.withDefault? key.name none fun node => (key.read? node).map some

/-- The layer with the given values. -/
def ofKeys (values : (key : Key) → Option key.Value) : Layer where
  typeStyle := values .typeStyle
  exports := values .exports
  schemaSuffix := values .schemaSuffix
  typeSuffix := values .typeSuffix
  comments := values .comments
  semicolons := values .semicolons

@[simp] theorem ofLayer_ofKeys (key : Key) (values : (key : Key) → Option key.Value) :
    key.ofLayer (ofKeys values) = values key := by
  cases key <;> rfl

@[simp] theorem ofLayer_empty (key : Key) : key.ofLayer empty = none := by
  cases key <;> rfl

/-- **A section is a layer, read one key after the other.** -/
theorem ofSection?_eq_some {node : Node} :
    ofSection? node = some layer ↔ ∃ members, members? node = some members ∧
      ∀ key : Key, setting? key members = some (key.ofLayer layer) := by
  unfold ofSection?
  simp only [Option.bind_eq_bind, Option.bind_eq_some_iff, Option.some.injEq]
  constructor
  · rintro ⟨members, hmembers, style, hstyle, exports, hexports, schema, hschema, type, htype,
      comments, hcomments, semicolons, hsemicolons, rfl⟩
    refine ⟨members, hmembers, fun key => ?_⟩
    cases key with
    | typeStyle    => exact hstyle
    | exports      => exact hexports
    | schemaSuffix => exact hschema
    | typeSuffix   => exact htype
    | comments     => exact hcomments
    | semicolons   => exact hsemicolons
  · rintro ⟨members, hmembers, hkeys⟩
    exact ⟨members, hmembers, _, hkeys .typeStyle, _, hkeys .exports, _, hkeys .schemaSuffix,
      _, hkeys .typeSuffix, _, hkeys .comments, _, hkeys .semicolons, rfl⟩

theorem setting?_of_lookup {node : Node} (h : members.lookup key.name = some node) :
    setting? key members = (key.read? node).map some := by
  unfold setting? Members.withDefault?
  rw [h]

theorem setting?_of_missing (h : members.lookup key.name = none) :
    setting? key members = some none := by
  unfold setting? Members.withDefault?
  rw [h]

/-- A section can be used as a whole exactly if every key has a setting. -/
theorem isSection_iff {node : Node} : IsSection node members ↔
    members? node = some members ∧ ∀ key : Key, ∃ value?, setting? key members = some value? := by
  constructor
  · rintro ⟨hknown, hreadable⟩
    refine ⟨hknown, fun key => ?_⟩
    cases hlookup : members.lookup key.name with
    | none => exact ⟨none, setting?_of_missing hlookup⟩
    | some node =>
        obtain ⟨value, hvalue⟩ := hreadable key node hlookup
        exact ⟨some value, by rw [setting?_of_lookup hlookup, hvalue, Option.map_some]⟩
  · rintro ⟨hknown, hsettings⟩
    refine ⟨hknown, fun key node hlookup => ?_⟩
    obtain ⟨value?, hvalue⟩ := hsettings key
    rw [setting?_of_lookup hlookup, Option.map_eq_some_iff] at hvalue
    obtain ⟨value, hvalue, -⟩ := hvalue
    exact ⟨value, hvalue⟩

theorem ofText?_eq_some : ofText? text = some layer ↔ ∃ root members, Toml.read? text = some root ∧
    root.members? .direct ["output"] = some members ∧
      members.withDefault? "output" empty ofSection? = some layer := by
  unfold ofText?
  simp only [Option.bind_eq_bind, Option.bind_eq_some_iff, exists_and_left]

/-- **A text that can be used as a whole is a layer** with the settings of its section. -/
theorem exists_ofText?_of_hasSection (h : HasSection text members) :
    ∃ layer, ofText? text = some layer ∧
      ∀ key : Key, setting? key members = some (key.ofLayer layer) := by
  cases h with
  | missing hroot hmembers houtput =>
      refine ⟨empty, ofText?_eq_some.mpr ⟨_, _, hroot, hmembers, ?_⟩, fun key => ?_⟩
      · unfold Members.withDefault?
        rw [houtput]
      · rw [ofLayer_empty]
        rfl
  | present hroot hmembers houtput h =>
      obtain ⟨hknown, hsettings⟩ := isSection_iff.mp h
      have hvalues : ∀ key : Key, setting? key members
          = some (key.ofLayer (ofKeys fun key => (setting? key members).getD none)) := by
        intro key
        obtain ⟨value?, hvalue⟩ := hsettings key
        rw [ofLayer_ofKeys, hvalue, Option.getD_some]
      refine ⟨_, ofText?_eq_some.mpr ⟨_, _, hroot, hmembers, ?_⟩, hvalues⟩
      unfold Members.withDefault?
      rw [houtput]
      exact ofSection?_eq_some.mpr ⟨_, hknown, hvalues⟩

theorem exists_hasSection_of_ofText? (h : ofText? text = some layer) :
    ∃ members, HasSection text members ∧
      ∀ key : Key, setting? key members = some (key.ofLayer layer) := by
  obtain ⟨root, members, hroot, hmembers, h⟩ := ofText?_eq_some.mp h
  unfold Members.withDefault? at h
  split at h
  · next node houtput =>
      obtain ⟨entries, hknown, hsettings⟩ := ofSection?_eq_some.mp h
      have hsection := isSection_iff.mpr ⟨hknown, fun key => ⟨_, hsettings key⟩⟩
      exact ⟨entries, .present hroot hmembers houtput hsection, hsettings⟩
  · next houtput =>
      obtain rfl := Option.some.inj h
      refine ⟨[], .missing hroot hmembers houtput, fun key => ?_⟩
      rw [ofLayer_empty]
      rfl

/-- **The layer of a file holds what the file sets.** -/
theorem ofLayer_ofFile_eq_some {file : Except FileError String} {value : key.Value} :
    key.ofLayer (ofFile file) = some value ↔ Sets file key value := by
  have hfile : ∀ text, ofFile (.ok text) = (ofText? text).getD empty := fun _ => rfl
  constructor
  · intro h
    cases file with
    | error error => exact nomatch (ofLayer_empty key).symm.trans h
    | ok text =>
        rw [hfile] at h
        cases hlayer : ofText? text with
        | none =>
            rw [hlayer, Option.getD_none, ofLayer_empty] at h
            exact nomatch h
        | some layer =>
            rw [hlayer, Option.getD_some] at h
            obtain ⟨members, hsection, hsettings⟩ := exists_hasSection_of_ofText? hlayer
            have hsetting := hsettings key
            rw [h] at hsetting
            cases hlookup : members.lookup key.name with
            | none => exact nomatch (setting?_of_missing hlookup).symm.trans hsetting
            | some node =>
                rw [setting?_of_lookup hlookup, Option.map_eq_some_iff] at hsetting
                obtain ⟨read, hread, hsame⟩ := hsetting
                exact ⟨text, members, node, rfl, hsection, hlookup, hread.trans hsame⟩
  · rintro ⟨text, members, node, rfl, hsection, hlookup, hread⟩
    obtain ⟨layer, hlayer, hsettings⟩ := exists_ofText?_of_hasSection hsection
    have hsetting := hsettings key
    rw [setting?_of_lookup hlookup, hread, Option.map_some] at hsetting
    rw [hfile, hlayer, Option.getD_some]
    exact (Option.some.inj hsetting).symm

theorem ofLayer_ofFile_eq_none {file : Except FileError String} :
    key.ofLayer (ofFile file) = none ↔ ∀ value, ¬ Sets file key value := by
  rw [Option.eq_none_iff_forall_ne_some]
  exact forall_congr' fun value => not_congr ofLayer_ofFile_eq_some

/-! ## Layers -/

theorem ofSettings_apply (key : Key) (layer : Layer) (settings : Settings) :
    key.ofSettings (layer.apply settings) = (key.ofLayer layer).getD (key.ofSettings settings) := by
  cases key <;> rfl

theorem ofLayer_merge (key : Key) (lower upper : Layer) :
    key.ofLayer (lower.merge upper) = (key.ofLayer upper).or (key.ofLayer lower) := by
  cases key <;> rfl

/-- Settings are what their keys are. -/
theorem eq_of_ofSettings {settings settings' : Settings}
    (h : ∀ key : Key, key.ofSettings settings = key.ofSettings settings') :
    settings = settings' := by
  obtain ⟨style, exports, schema, type, comments, semicolons⟩ := settings
  obtain ⟨style', exports', schema', type', comments', semicolons'⟩ := settings'
  obtain rfl : style = style' := h .typeStyle
  obtain rfl : exports = exports' := h .exports
  obtain rfl : schema = schema' := h .schemaSuffix
  obtain rfl : type = type' := h .typeSuffix
  obtain rfl : comments = comments' := h .comments
  obtain rfl : semicolons = semicolons' := h .semicolons
  rfl

/-- **A layer applied twice changes no more than applied once.** -/
theorem apply_apply (layer : Layer) (settings : Settings) :
    layer.apply (layer.apply settings) = layer.apply settings := by
  refine eq_of_ofSettings fun key => ?_
  rw [ofSettings_apply, ofSettings_apply]
  cases key.ofLayer layer with
  | none   => rfl
  | some _ => rfl

end Layer

/-! ## Flags -/

theorem eq_ofKeys_of_style? {given : Arguments.Given} {flags : Layer}
    (h : given.style? = some flags) : flags = .ofKeys fun key => key.ofGiven given := by
  unfold Arguments.Given.style? at h
  unfold Layer.ofKeys Key.ofGiven
  dsimp only
  cases hword : given.value? .typeStyle with
  | none =>
      rw [hword] at h
      exact (Option.some.inj h).symm
  | some word =>
      rw [hword] at h
      dsimp only at h
      rw [Option.bind_some]
      cases hstyle : TypeStyle.ofName? word with
      | none =>
          -- a word that is no style is no layer either
          rw [hstyle] at h
          exact nomatch h
      | some style =>
          rw [hstyle] at h
          exact (Option.some.inj h).symm

/-- The layer of the flags holds what the flags set. -/
theorem ofLayer_of_style? {given : Arguments.Given} {flags : Layer}
    (h : given.style? = some flags) (key : Key) : key.ofLayer flags = key.ofGiven given := by
  rw [eq_ofKeys_of_style? h, Layer.ofLayer_ofKeys]

/-! ## Resolution -/

/-- The value of the topmost source that sets a key. -/
inductive Topmost (configuration : Configuration) (given : Arguments.Given) (key : Key) :
    key.Value → Prop where
  | flags {value : key.Value} (h : key.ofGiven given = some value) :
      Topmost configuration given key value
  | project {value : key.Value} (hflags : key.ofGiven given = none)
      (h : Sets configuration.project key value) : Topmost configuration given key value
  | user {value : key.Value} (hflags : key.ofGiven given = none)
      (hproject : ∀ value, ¬ Sets configuration.project key value)
      (h : Sets configuration.user key value) : Topmost configuration given key value
  | usual (hflags : key.ofGiven given = none)
      (hproject : ∀ value, ¬ Sets configuration.project key value)
      (huser : ∀ value, ¬ Sets configuration.user key value) :
      Topmost configuration given key key.usual

theorem Key.ofSettings_resolve (key : Key) (configuration : Configuration) (flags : Layer) :
    key.ofSettings (configuration.resolve flags)
      = (key.ofLayer flags).getD ((key.ofLayer (.ofFile configuration.project)).getD
          ((key.ofLayer (.ofFile configuration.user)).getD key.usual)) := by
  have husual : key.ofSettings {} = key.usual := by
    cases key <;> rfl
  unfold Configuration.resolve Configuration.settings Configuration.layer
  rw [Layer.ofSettings_apply, Layer.ofSettings_apply, Layer.empty_merge, Layer.ofLayer_merge, husual,
    Option.getD_or]

theorem topmost_ofSettings (configuration : Configuration) {given : Arguments.Given}
    {flags : Layer} (hflags : given.style? = some flags) (key : Key) :
    Topmost configuration given key (key.ofSettings (configuration.resolve flags)) := by
  rw [Key.ofSettings_resolve]
  have hgiven := ofLayer_of_style? hflags key
  cases hlayer : key.ofLayer flags with
  | some value => exact .flags (hgiven.symm.trans hlayer)
  | none =>
      have hnone := hgiven.symm.trans hlayer
      cases hproject : key.ofLayer (.ofFile configuration.project) with
      | some value => exact .project hnone (Layer.ofLayer_ofFile_eq_some.mp hproject)
      | none =>
          have hproject := Layer.ofLayer_ofFile_eq_none.mp hproject
          cases huser : key.ofLayer (.ofFile configuration.user) with
          | some value => exact .user hnone hproject (Layer.ofLayer_ofFile_eq_some.mp huser)
          | none => exact .usual hnone hproject (Layer.ofLayer_ofFile_eq_none.mp huser)

theorem Sets.unique {file : Except FileError String} {value value' : key.Value}
    (h : Sets file key value) (h' : Sets file key value') : value = value' :=
  Option.some.inj ((Layer.ofLayer_ofFile_eq_some.mpr h).symm.trans
    (Layer.ofLayer_ofFile_eq_some.mpr h'))

/-- Only one value is that of the topmost source. -/
theorem Topmost.unique {configuration : Configuration} {given : Arguments.Given}
    {value value' : key.Value} (h : Topmost configuration given key value)
    (h' : Topmost configuration given key value') : value = value' := by
  cases h with
  | flags h =>
      cases h' with
      | flags h'         => exact Option.some.inj (h.symm.trans h')
      | project hflags _ => exact nomatch h.symm.trans hflags
      | user hflags _ _  => exact nomatch h.symm.trans hflags
      | usual hflags _ _ => exact nomatch h.symm.trans hflags
  | project hflags h =>
      cases h' with
      | flags h'           => exact nomatch h'.symm.trans hflags
      | project _ h'       => exact h.unique h'
      | user _ hproject _  => exact absurd h (hproject _)
      | usual _ hproject _ => exact absurd h (hproject _)
  | user hflags hproject h =>
      cases h' with
      | flags h'        => exact nomatch h'.symm.trans hflags
      | project _ h'    => exact absurd h' (hproject _)
      | user _ _ h'     => exact h.unique h'
      | usual _ _ huser => exact absurd h (huser _)
  | usual hflags hproject huser =>
      cases h' with
      | flags h'     => exact nomatch h'.symm.trans hflags
      | project _ h' => exact absurd h' (hproject _)
      | user _ _ h'  => exact absurd h' (huser _)
      | usual _ _ _  => rfl

/-- **Settings are resolved key by key**: each key has the value of the topmost of the flags, the
    project's file, the user's file and the usual values that sets it. And merging layers is putting
    one on top of the other, so it does not matter how they are grouped, nor how often one is
    applied. -/
theorem resolve_keys :
    (∀ (configuration : Configuration) (given : Arguments.Given) (flags : Layer),
      given.style? = some flags → ∀ (key : Key) (value : key.Value),
        key.ofSettings (configuration.resolve flags) = value
          ↔ Topmost configuration given key value) ∧
    (∀ (lower upper : Layer) (settings : Settings),
      (lower.merge upper).apply settings = upper.apply (lower.apply settings)) ∧
    (∀ a b c : Layer, (a.merge b).merge c = a.merge (b.merge c)) ∧
    (∀ layer : Layer, Layer.empty.merge layer = layer ∧ layer.merge .empty = layer) ∧
    (∀ (layer : Layer) (settings : Settings),
      layer.apply (layer.apply settings) = layer.apply settings) := by
  refine ⟨?_, Layer.apply_merge, Layer.merge_assoc,
    fun layer => ⟨Layer.empty_merge layer, Layer.merge_empty layer⟩, Layer.apply_apply⟩
  intro configuration given flags hflags key value
  have htopmost := topmost_ofSettings configuration hflags key
  constructor
  · rintro rfl
    exact htopmost
  · intro h
    exact htopmost.unique h

/-- A user who names validators, prefers aliases and wants no doc comments, in a project with interfaces
    and doc comments. -/
def commentedProject : Configuration where
  user := .ok <| "[output]\ntype_style = \"type\"\nschema_name_suffix = \"Validator\"\n"
    ++ "include_comments = false\n"
  project := .ok "[output]\ninclude_comments = true\ntype_style = \"interface\"\n"

/-- Flags against semicolons and for a suffix of types. -/
def suffixFlags : Arguments.Given where
  flags := [.noSemicolons]
  settings := [(.typeSuffix, "T")]

theorem resolve_keys_commentedProject :
    ∃ flags : Layer, suffixFlags.style? = some flags ∧
      Topmost commentedProject suffixFlags .semicolons false ∧
      Topmost commentedProject suffixFlags .typeStyle .interface ∧
      Topmost commentedProject suffixFlags .comments true ∧
      Topmost commentedProject suffixFlags .schemaSuffix "Validator" ∧
      Topmost commentedProject suffixFlags .exports true :=
  ⟨_, rfl, (resolve_keys.1 _ _ _ rfl _ _).mp (by decide +kernel),
    (resolve_keys.1 _ _ _ rfl _ _).mp (by decide +kernel),
    (resolve_keys.1 _ _ _ rfl _ _).mp (by decide +kernel),
    (resolve_keys.1 _ _ _ rfl _ _).mp (by decide +kernel),
    (resolve_keys.1 _ _ _ rfl _ _).mp (by decide +kernel)⟩

end SchemaForge
