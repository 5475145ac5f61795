import SchemaForge.Command.Session

/-!
# `SchemaForge.Main` — the program

Reads the sources of a command from the file system and performs its effects there.
-/

namespace SchemaForge.Program

/-- Why the system refused. -/
def fileError : IO.Error → FileError
  | .noFileOrDirectory _ _ _       => .notFound
  | .alreadyExists _ _ _           => .alreadyExists
  | .inappropriateType _ code text =>
    if code = 20 then .notDirectory else if code = 21 then .isDirectory else .other text
  | .invalidArgument _ code text   => if code = 36 then .nameTooLong else .other text
  | error                          => .other (toString error)

/-- The result of an action that the system may refuse. -/
def attempt {α : Type} (action : IO α) : IO (Except FileError α) := do
  try
    return .ok (← action)
  catch error =>
    return .error (fileError error)

/-- The text that bytes hold. -/
def decoded : Except FileError ByteArray → Except FileError String
  | .ok bytes    =>
    match String.fromUTF8? bytes with
    | some text => .ok text
    | none      => .error .notText
  | .error error => .error error

/-- Reads the file that a path names. -/
def readFile (path : String) : IO (Except FileError String) :=
  decoded <$> attempt (IO.FS.readBinFile path)

/-- Reads what a path names. -/
def readSource (path : String) : IO Command.Source := do
  if path = Document.Format.standardInput then
    return ⟨path, decoded (← attempt do (← IO.getStdin).readBinToEnd)⟩
  else
    return ⟨path, ← readFile path⟩

/-- Reads the configuration files of the user and of the project. -/
def readConfiguration : IO Configuration := do
  let home ← IO.getEnv "HOME"
  let configHome := (← IO.getEnv "XDG_CONFIG_HOME").or (home.map (Path.join · ".config"))
  let user ←
    match configHome with
    | some directory => readFile (Session.userFile directory)
    | none           => pure (.error .notFound)
  let directory ← attempt IO.currentDir
  let root : String :=
    match directory with
    | .ok directory => directory.toString
    | .error _      => "."
  return { user, project := ← readFile (Session.projectFile root) }

/-- Makes the directory that a path names, unless it is there. Every directory holds itself under the
    name of one dot. -/
def ensureDirectory (path : String) : IO (Except FileError Unit) := do
  match ← attempt (IO.FS.createDir path) with
  | .ok _        => return .ok ()
  | .error error =>
    match ← attempt (IO.FS.createDir (Path.join path ".")) with
    | .error .alreadyExists => return .ok ()
    | _                     => return .error error

/-- Performs an effect. -/
def perform : Effect → IO (Except FileError Unit)
  | .print text             => attempt (IO.print text)
  | .createDirectories path => Files.ensureAll ensureDirectory path
  | .write path text        =>
    attempt do
      IO.FS.writeFile path text
      IO.eprintln (generatedLine path)

/-- Performs effects up to the first that fails. -/
def performAll : List Effect → IO ExitCode
  | []                => return .success
  | effect :: effects => do
    match ← perform effect with
    | .ok _        => performAll effects
    | .error error =>
      IO.eprintln (errorLine (effect.failureMessage error))
      return .failure

/-- Runs a command. -/
def runCommand (command : Command) : IO ExitCode := do
  let configuration ← readConfiguration
  let sources ← command.inputs.mapM readSource
  match command.effects configuration sources with
  | .ok effects    => performAll effects
  | .error failure =>
    IO.eprintln (errorLine failure.message)
    return .failure

/-- Runs a command line. -/
def run (arguments : List String) : IO ExitCode := do
  match Arguments.Invocation.ofArguments? arguments with
  | some (.command command) => runCommand command
  | some .version           =>
    IO.println versionText
    return .success
  | none                    =>
    IO.eprintln usageText
    return .usage

end SchemaForge.Program

def main (arguments : List String) : IO UInt32 := do
  return (← SchemaForge.Program.run arguments).number.toUInt32
