import SchemaForge.Command.Arguments
import SchemaForge.Command.Plan

/-!
# `SchemaForge.Command.Session` — a command at work

A session holds the files of the system, what is left of the standard input, and what has been
printed. Running a command line reads its sources, plans its effects and performs them one after the
other; the first that fails ends the run.

## Contents
- **Sessions.** `Session`, and `Session.perform` for single effects.
- **Reading.** `Session.readSources`.
- **Runs.** `Session.run`, with the code that the program exits with.
-/

namespace SchemaForge

/-! ## Sessions -/

/-- The surroundings of a command. -/
structure Session where
  files : Files := {}
  input : Content := .text ""
  /-- What has been printed. -/
  output : String := ""
  /-- What has been said beside the output, line by line. -/
  messages : List String := []

/-- The codes that the program exits with. -/
inductive ExitCode where
  | success
  | failure
  /-- The command line was wrong. -/
  | usage
deriving DecidableEq

/-- The number of an exit code. -/
def ExitCode.number : ExitCode → Nat
  | success => 0
  | failure => 1
  | usage   => 2

/-- What is said of a command line that is wrong. -/
def usageText : String :=
  "usage: zodsmith [-v] generate|import|templates|backends [ARGUMENTS]"

/-- What is printed as the version. -/
def versionText : String := "zodsmith 0.2.0"

/-- The line for an error. -/
def errorLine (message : String) : String := "error: " ++ message

/-- The line for a file that has been written. -/
def generatedLine (path : String) : String := "Generated " ++ path

namespace Session

/-- Prints a text. -/
def print (session : Session) (text : String) : Session :=
  { session with output := session.output ++ text }

/-- Says a line beside the output. -/
def say (session : Session) (line : String) : Session :=
  { session with messages := session.messages ++ [line] }

/-- Performs an effect, as far as the system lets it. -/
def perform (session : Session) : Effect → Except FileError Unit × Session
  | .print text             => (.ok (), session.print text)
  | .createDirectories path =>
    let (result, files) := (Files.createDirectories path).run session.files
    (result, { session with files })
  | .write path text        =>
    match session.files.write? path text with
    | .ok files    => (.ok (), { session with files }.say (generatedLine path))
    | .error error => (.error error, session)

/-- Performs effects up to the first that fails. -/
def performAll (session : Session) : List Effect → ExitCode × Session
  | []                => (.success, session)
  | effect :: effects =>
    match session.perform effect with
    | (.ok _, session)        => session.performAll effects
    | (.error error, session) =>
      (.failure, session.say (errorLine (effect.failureMessage error)))

/-! ## Reading -/

/-- Reads what paths name. The standard input can be read once and is empty after that. -/
def readSources (session : Session) : List String → List Command.Source × Session
  | []            => ([], session)
  | path :: paths =>
    let (source, session) : Command.Source × Session :=
      if path = Document.Format.standardInput then
        (⟨path, session.input.read⟩, { session with input := .text "" })
      else (⟨path, session.files.read path⟩, session)
    let (sources, session) := session.readSources paths
    (source :: sources, session)

/-- The configuration file of the user below a directory for configuration. -/
def userFile (configHome : String) : String :=
  Path.join (Path.join configHome "zodsmith") "config.toml"

/-- The configuration file of the project in a directory. -/
def projectFile (directory : String) : String :=
  Path.join (Path.join directory ".zodsmith") "config.toml"

/-- The configuration files of a session. -/
def configuration (session : Session) (configHome : String) : Configuration where
  user := session.files.read (userFile configHome)
  project := session.files.read (projectFile session.files.workingDirectory.path)

/-! ## Runs -/

/-- Runs a command. -/
def runCommand (session : Session) (configHome : String) (command : Command) :
    ExitCode × Session :=
  let configuration := session.configuration configHome
  let (sources, session) := session.readSources command.inputs
  match command.effects configuration sources with
  | .ok effects     => session.performAll effects
  | .error failure  => (.failure, session.say (errorLine failure.message))

/-- Runs a command line. -/
def run (session : Session) (configHome : String) (arguments : List String) :
    ExitCode × Session :=
  match Arguments.Invocation.ofArguments? arguments with
  | none                    => (.usage, session.say usageText)
  | some .version           => (.success, session.print (versionText ++ "\n"))
  | some (.command command) => session.runCommand configHome command

end Session

end SchemaForge
