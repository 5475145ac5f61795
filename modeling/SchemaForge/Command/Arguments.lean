import SchemaForge.Command.Basic

/-!
# `SchemaForge.Command.Arguments` — reading a command line

An argument is a switch if it starts with a dash and does not end there; every other one is a name.
Some switches take a value, which follows them at once or as the next argument. Each switch may be
given once. After two dashes all arguments are names.

## Contents
- **Switches.** `Flag` and `Setting`, by their long names and letters.
- **Sorting.** `Given`, the switches and names that are given, and `Given.of?`.
- **Commands.** A reader for each command, and `Invocation.ofArguments?` for a whole line.
-/

namespace SchemaForge.Arguments

/-! ## Switches -/

/-- A switch without a value. -/
inductive Flag where
  | verbose
  | noExports
  | noComments
  | noSemicolons
  | json
deriving DecidableEq

def Flag.name : Flag → String
  | verbose      => "verbose"
  | noExports    => "no-exports"
  | noComments   => "no-comments"
  | noSemicolons => "no-semicolons"
  | json         => "json"

/-- The letter that stands for a flag. -/
def Flag.letter? : Flag → Option Char
  | verbose => some 'v'
  | _       => none

/-- A switch with a value. -/
inductive Setting where
  | target
  | typeStyle
  | schemaSuffix
  | typeSuffix
  | output
  | outDir
  | emit
deriving DecidableEq

def Setting.name : Setting → String
  | target       => "target"
  | typeStyle    => "type-style"
  | schemaSuffix => "schema-suffix"
  | typeSuffix   => "type-suffix"
  | output       => "output"
  | outDir       => "out-dir"
  | emit         => "emit"

/-- The letter that stands for a setting. -/
def Setting.letter? : Setting → Option Char
  | target => some 't'
  | output => some 'o'
  | emit   => some 'e'
  | _      => none

/-- The switches that a command knows. -/
structure Switches where
  flags : List Flag
  settings : List Setting

/-- The flags for how code is emitted. -/
def styleFlags : List Flag := [.noExports, .noComments, .noSemicolons]

/-- The settings for how code is emitted. -/
def styleSettings : List Setting := [.typeStyle, .schemaSuffix, .typeSuffix]

/-! ## Sorting -/

/-- The switches and names of a command line, in order. -/
structure Given where
  flags : List Flag := []
  settings : List (Setting × String) := []
  names : List String := []

/-- What an argument holds. -/
inductive Argument where
  | name
  /-- Flags, and perhaps a setting with its value. -/
  | whole (flags : List Flag) (setting : List (Setting × String))
  /-- Flags and a setting whose value is the next argument. -/
  | open (flags : List Flag) (setting : Setting)
  | unknown

/-- Whether an argument is a switch. -/
def isSwitch (argument : String) : Bool :=
  match argument.toList with
  | '-' :: _ :: _ => true
  | _             => false

namespace Switches

/-- What a long switch holds, after its dashes. -/
def ofLong (switches : Switches) (text : List Char) : Argument :=
  let name := String.ofList (text.takeWhile (· ≠ '='))
  let value? : Option String :=
    match text.dropWhile (· ≠ '=') with
    | _ :: value => some (String.ofList value)
    | []         => none
  match switches.flags.find? (·.name == name), switches.settings.find? (·.name == name), value? with
  | some flag, _, none            => .whole [flag] []
  | none, some setting, some value => .whole [] [(setting, value)]
  | none, some setting, none      => .open [] setting
  | _, _, _                       => .unknown

/-- What letters after a dash hold. What follows the letter of a setting is its value. -/
def ofLetters (switches : Switches) (flags : List Flag) : List Char → Argument
  | []          => .whole flags []
  | c :: letters =>
    match switches.flags.find? (·.letter? == some c),
      switches.settings.find? (·.letter? == some c), letters with
    | some flag, _, _             => switches.ofLetters (flags ++ [flag]) letters
    | none, some setting, []      => .open flags setting
    | none, some setting, '=' :: value => .whole flags [(setting, String.ofList value)]
    | none, some setting, value   => .whole flags [(setting, String.ofList value)]
    | none, none, _               => .unknown

/-- What an argument holds. -/
def classify (switches : Switches) (argument : String) : Argument :=
  match argument.toList with
  | '-' :: '-' :: text => switches.ofLong text
  | '-' :: c :: text   => switches.ofLetters [] (c :: text)
  | _                  => .name

end Switches

namespace Given

/-- The switches and names of arguments, which may hold a switch more than once. -/
def sort? (switches : Switches) : List String → Option Given
  | []              => some {}
  | "--" :: names   => some { names }
  | argument :: rest =>
    match switches.classify argument with
    | .unknown              => none
    | .name                 =>
      (sort? switches rest).map fun given => { given with names := argument :: given.names }
    | .whole flags settings =>
      (sort? switches rest).map fun given =>
        { given with flags := flags ++ given.flags, settings := settings ++ given.settings }
    | .open flags setting   =>
      match rest with
      | []            => none
      | value :: rest =>
        if isSwitch value then none
        else
          (sort? switches rest).map fun given =>
            { given with
              flags := flags ++ given.flags
              settings := (setting, value) :: given.settings }

/-- Whether no switch is given twice. -/
def isSingle (given : Given) : Bool :=
  decide given.flags.Nodup && decide (given.settings.map Prod.fst).Nodup

/-- The switches and names of arguments, each switch once. -/
def of? (switches : Switches) (arguments : List String) : Option Given :=
  (sort? switches arguments).filter isSingle

def hasFlag (given : Given) (flag : Flag) : Bool := given.flags.contains flag

/-- The value of a setting. -/
def value? (given : Given) (setting : Setting) : Option String := given.settings.lookup setting

/-- The path that a setting holds, if it is given. A path is not empty. -/
def path? (given : Given) (setting : Setting) : Option (Option String) :=
  match given.value? setting with
  | some "" => none
  | path    => some path

/-- The layer of the flags for how code is emitted. -/
def style? (given : Given) : Option Layer := do
  let typeStyle ←
    match given.value? .typeStyle with
    | some word => (TypeStyle.ofName? word).map some
    | none      => some none
  let off (flag : Flag) : Option Bool := if given.hasFlag flag then some false else none
  some
    { typeStyle
      exports := off .noExports
      schemaSuffix := given.value? .schemaSuffix
      typeSuffix := given.value? .typeSuffix
      comments := off .noComments
      semicolons := off .noSemicolons }

/-- Where generated code goes. One file and a directory cannot both be asked for. -/
def destination? (given : Given) : Option Destination := do
  match ← given.path? .output, ← given.path? .outDir with
  | none, none           => some .standardOutput
  | some path, none      => some (.file path)
  | none, some path      => some (.directory path)
  | some _, some _       => none

end Given

/-! ## Commands -/

/-- The command to generate code. -/
def generate? (arguments : List String) : Option Command := do
  let given ← Given.of?
    ⟨.verbose :: styleFlags, [.target, .output, .outDir] ++ styleSettings⟩ arguments
  let destination ← given.destination?
  let style ← given.style?
  if given.names = [] ∨ "" ∈ given.names then none
  else some (.generate given.names ((given.value? .target).getD "module") destination style)

/-- The command to import a schema. -/
def import? (arguments : List String) : Option Command := do
  let given ← Given.of? ⟨.verbose :: styleFlags, .emit :: styleSettings⟩ arguments
  let emission ←
    match given.value? .emit with
    | some word => Emission.ofName? word
    | none      => some (.document .json)
  let style ← given.style?
  match given.names with
  | [input] => if input = "" then none else some (.importType input emission style)
  | _       => none

/-- The command to show starter schemas. -/
def templates? (arguments : List String) : Option Command := do
  let given ← Given.of? ⟨[.verbose, .json] ++ styleFlags, styleSettings⟩ arguments
  let style ← given.style?
  match given.names with
  | []   => some (.templates none (given.hasFlag .json) style)
  | [id] => some (.templates (some id) (given.hasFlag .json) style)
  | _    => none

/-- The command to list the backends. -/
def backends? (arguments : List String) : Option Command := do
  let given ← Given.of? ⟨[.verbose], []⟩ arguments
  if given.names = [] then some .backends else none

/-- The reader of the arguments of a command. -/
def command? : String → Option (List String → Option Command)
  | "generate"  => some generate?
  | "import"    => some import?
  | "templates" => some templates?
  | "backends"  => some backends?
  | _           => none

/-! ## Whole command lines -/

/-- What a command line asks for. -/
inductive Invocation where
  | version
  | command (command : Command)
deriving DecidableEq

namespace Invocation

/-- A switch before the command. -/
inductive Leading where
  | verbose
  | version
  | unknown

/-- The switch that a letter stands for. -/
def Leading.ofLetter : Char → Leading
  | 'v' => verbose
  | 'V' => version
  | _   => unknown

/-- The switches of an argument before the command. -/
def leading (argument : String) : List Leading :=
  match argument.toList with
  | '-' :: '-' :: text =>
    if text = "verbose".toList then [.verbose]
    else if text = "version".toList then [.version]
    else [.unknown]
  | '-' :: c :: text   => (c :: text).map Leading.ofLetter
  | _                  => [.unknown]

/-- Whether the program is to be verbose after some switches; nothing if one is wrong, and the
    version if it is asked for before that. -/
def afterLeading (isVerbose : Bool) : List Leading → Except (Option Invocation) Bool
  | []               => .ok isVerbose
  | .verbose :: rest => if isVerbose then .error none else afterLeading true rest
  | .version :: _    => .error (some version)
  | .unknown :: _    => .error none

/-- What the arguments ask for, if the switches so far were right. -/
def after? (isVerbose : Bool) : List String → Option Invocation
  | []               => none
  | argument :: rest =>
    match command? argument with
    | some read => (read rest).map command
    | none      =>
      match afterLeading isVerbose (leading argument) with
      | .ok isVerbose      => after? isVerbose rest
      | .error invocation? => invocation?

/-- What a command line asks for; nothing if it is wrong. -/
def ofArguments? (arguments : List String) : Option Invocation := after? false arguments

end Invocation

end SchemaForge.Arguments
