import SchemaForge.Path

/-!
# `SchemaForge.Files` — a tree of files and directories

The files and directories below the root of a file system, with the operations that commands need.
Every operation says what is wrong in the words of the system. A path starts at the root or at the
working directory and is followed name by name, so that every name but the last must belong to a
directory that may be entered. All files are plain ones: there are no links and no devices.

## Contents
- **Causes.** `FileError`, why a file cannot be used.
- **Files.** `Content`, what a file holds, and `Files`, a tree as the list of its places.
- **Paths.** `step`, `follow` and `locate`, where names lead to.
- **Operations.** `read`, `write?` and `createDirectories`.
-/

namespace SchemaForge

/-! ## Causes -/

/-- Why a file or directory cannot be used. -/
inductive FileError where
  | notFound
  | alreadyExists
  | notDirectory
  | isDirectory
  | nameTooLong
  | invalidName
  | notText
  /-- Any other reason, in the words of the system. -/
  | other (reason : String)
deriving DecidableEq

/-- The reason in the words of the system. -/
def FileError.message : FileError → String
  | notFound      => "No such file or directory (os error 2)"
  | alreadyExists => "File exists (os error 17)"
  | notDirectory  => "Not a directory (os error 20)"
  | isDirectory   => "Is a directory (os error 21)"
  | nameTooLong   => "File name too long (os error 36)"
  | invalidName   => "file name contained an unexpected NUL byte"
  | notText       => "stream did not contain valid UTF-8"
  | other reason  => reason

/-! ## Files -/

/-- A place in the tree: the names that lead to it from the root. -/
abbrev Place := List String

/-- The path of a place from the root. -/
def Place.path (place : Place) : String := "/" ++ "/".intercalate place

/-- What a file holds. -/
inductive Content where
  | text (string : String)
  /-- Bytes that are no text in UTF-8. -/
  | binary
deriving DecidableEq

instance : Coe String Content := ⟨.text⟩

/-- The text that a content is read as. -/
def Content.read : Content → Except FileError String
  | text string => .ok string
  | binary      => .error .notText

/-- What the system may refuse to do at a place. -/
inductive Access where
  /-- To go through a directory. -/
  | enter
  | read
  /-- To change a file, or to make a file or directory in a directory. -/
  | write
deriving DecidableEq

/-- What files hold by their places, the directories that were made, the directory in which relative
    paths start, and what the system refuses, with its reasons. -/
structure Files where
  contents : List (Place × Content) := []
  directories : List Place := []
  workingDirectory : Place := []
  refusals : List ((Access × Place) × String) := []
deriving DecidableEq

namespace Files

/-- Whether there is a directory at a place: one on the way to the working directory, one that was
    made, or one that a file or directory lies in. -/
def isDirectory (files : Files) (place : Place) : Bool :=
  place.isPrefixOf files.workingDirectory || files.directories.any (place.isPrefixOf ·)
    || files.contents.any fun file => place.isPrefixOf file.1 && place != file.1

/-- What the file at a place holds. -/
def content? (files : Files) (place : Place) : Option Content := files.contents.lookup place

/-- The text of the file at a place. -/
def text? (files : Files) (place : Place) : Option String :=
  match files.content? place with
  | some (.text text) => some text
  | _                 => none

/-- The texts of all files. -/
def texts (files : Files) : List (Place × String) :=
  files.contents.filterMap fun file =>
    match file.2 with
    | .text text => some (file.1, text)
    | .binary    => none

/-- Contents with the one at a place replaced or added. -/
def set (place : Place) (content : Content) : List (Place × Content) → List (Place × Content)
  | []               => [(place, content)]
  | file :: contents =>
    if file.1 = place then (place, content) :: contents else file :: set place content contents

/-- Puts a text at a place, instead of what is there. -/
def put (files : Files) (place : Place) (text : String) : Files :=
  { files with contents := set place (.text text) files.contents }

theorem lookup_set (place other : Place) (content : Content) (contents : List (Place × Content)) :
    (set place content contents).lookup other =
      if other = place then some content else contents.lookup other := by
  induction contents with
  | nil                => by_cases h : other = place <;> simp [set, h]
  | cons file contents ih =>
    obtain ⟨name, old⟩ := file
    by_cases here : name = place
    · subst here
      by_cases same : other = name
      · simp [set, same]
      · have apart : (other == name) = false := by simpa using same
        simp [set, List.lookup_cons, apart, same]
    · by_cases same : other = name
      · subst same
        simp [set, here]
      · have apart : (other == name) = false := by simpa using same
        simp [set, here, List.lookup_cons, apart, ih]

/-- Putting a text somewhere changes nothing elsewhere. -/
theorem content?_put (files : Files) (place other : Place) (text : String) :
    (files.put place text).content? other =
      if other = place then some (.text text) else files.content? other :=
  lookup_set place other (.text text) files.contents

/-! ## Paths -/

/-- The most bytes that a name may have. -/
def nameLimit : Nat := 255

/-- The number of bytes from which on a path is too long. -/
def pathLimit : Nat := 4096

/-- Whether a path can be followed at all, whatever files there are. -/
def checkPath (path : String) : Except FileError Unit :=
  if path.toList.contains '\x00' then .error .invalidName
  else if path = "" then .error .notFound
  else if pathLimit ≤ path.utf8ByteSize then .error .nameTooLong
  else .ok ()

/-- Whether the system lets a place be used. -/
def permit (files : Files) (access : Access) (place : Place) : Except FileError Unit :=
  match files.refusals.lookup (access, place) with
  | some reason => .error (.other reason)
  | none        => .ok ()

/-- Whether a place is a directory that can be gone through. -/
def enter (files : Files) (place : Place) : Except FileError Unit :=
  if files.isDirectory place then files.permit .enter place
  else if (files.content? place).isSome then .error .notDirectory
  else .error .notFound

/-- The place that one name leads to from a place. Nothing is above the root but the root itself. -/
def step (place : Place) (name : String) : Place :=
  if name = "." then place else if name = ".." then place.dropLast else place ++ [name]

/-- The place that names lead to from a place. The last one need not be there. -/
def follow (files : Files) (place : Place) : List String → Except FileError Place
  | []            => .ok place
  | name :: names => do
    files.enter place
    if nameLimit < name.utf8ByteSize then .error .nameTooLong
    else files.follow (step place name) names

/-- The place in which a path starts. -/
def start (files : Files) (path : String) : Place :=
  if Path.isAbsolute path then [] else files.workingDirectory

/-- The place that a path leads to. -/
def locate (files : Files) (path : String) : Except FileError Place := do
  checkPath path
  files.follow (files.start path) (Path.steps path)

/-! ## Operations -/

/-- The text of the file that a path names. -/
def read (files : Files) (path : String) : Except FileError String := do
  let place ← files.locate path
  match files.isDirectory place, files.content? place with
  | true, _             => do
    files.permit .read place
    .error .isDirectory
  | false, none         => .error .notFound
  | false, some content => do
    if Path.endsInSlash path then .error .notDirectory
    else
      files.permit .read place
      content.read

/-- Writes a text into the file that a path names. One that is new is made in its directory. -/
def write? (files : Files) (path text : String) : Except FileError Files := do
  let place ← files.locate path
  if files.isDirectory place || Path.endsInSlash path then .error .isDirectory
  else do
    files.permit .write (if (files.content? place).isSome then place else place.dropLast)
    .ok (files.put place text)

/-- Makes the directory that a path names, which must be missing. -/
def makeDirectory? (files : Files) (path : String) : Except FileError Files := do
  let place ← files.locate path
  if files.isDirectory place || (files.content? place).isSome then .error .alreadyExists
  else do
    files.permit .write place.dropLast
    .ok { files with directories := place :: files.directories }

/-- Whether a path leads to a directory. -/
def leadsToDirectory (files : Files) (path : String) : Bool :=
  match files.locate path with
  | .ok place => files.isDirectory place
  | .error _  => false

/-- Makes the directory that a path names, unless it is there. -/
def ensureDirectory (path : String) : StateM Files (Except FileError Unit) := fun files =>
  match files.makeDirectory? path with
  | .ok files    => (.ok (), files)
  | .error cause => (if files.leadsToDirectory path then .ok () else .error cause, files)

/-- Makes the directory that a path names as `ensure` does, and if it finds nothing to make it in, first
    those in which it lies, of which the nearest comes first. What was made stays even if another one
    cannot be made. -/
def ensureAlong {m : Type → Type} [Monad m] (ensure : String → m (Except FileError Unit))
    (path : String) : List String → m (Except FileError Unit)
  | []                => ensure path
  | parent :: parents => do
    match ← ensure path with
    | .error .notFound =>
      match ← ensureAlong ensure parent parents with
      | .ok _        => ensure path
      | .error cause => pure (.error cause)
    | result           => pure result

/-- Makes the directory that a path names and those in which it lies, if they are missing. The empty
    path asks for none. -/
def ensureAll {m : Type → Type} [Monad m] (ensure : String → m (Except FileError Unit))
    (path : String) : m (Except FileError Unit) :=
  if path = "" then pure (.ok ()) else ensureAlong ensure path (Path.parents path)

/-- Makes the directory that a path names and those in which it lies in a tree. -/
def createDirectories (path : String) : StateM Files (Except FileError Unit) :=
  ensureAll ensureDirectory path

end Files

end SchemaForge
