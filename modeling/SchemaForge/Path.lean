import SchemaForge.Text.Blank

/-!
# `SchemaForge.Path` — names of files

A path is a text of names with slashes between them. Empty names and dots that stand alone lead
nowhere, so a path may end in slashes or in `/.` and still name the same file.

## Contents
- **Names.** `steps`, `names`, `fileName?` and `extension?`.
- **Joining.** `isAbsolute`, `join`, and `parents`, the directories on the way.
-/

namespace SchemaForge.Path

/-! ## Names -/

/-- The names of a path in order, without empty ones. -/
def steps (path : String) : List String :=
  ((Text.split '/' path.toList).filter fun name => name ≠ []).map String.ofList

/-- The names of a path in order, without empty ones and dots that stand alone. -/
def names (path : String) : List String := (steps path).filter fun name => name ≠ "."

/-- Whether a slash stands at the end of a path. -/
def endsInSlash (path : String) : Bool := path.toList.getLast? == some '/'

/-- The last name of a path, unless it leads upwards. -/
def fileName? (path : String) : Option String :=
  match (names path).getLast? with
  | some ".." => none
  | name      => name

/-- What follows the last dot of a name, if a dot stands anywhere but at its start. -/
def extensionOfName? (name : String) : Option String :=
  let reversed := name.toList.reverse
  match reversed.dropWhile fun c => c ≠ '.' with
  | _ :: _ :: _ => some (String.ofList (reversed.takeWhile fun c => c ≠ '.').reverse)
  | _           => none

/-- The extension of the file that a path names. -/
def extension? (path : String) : Option String := (fileName? path).bind extensionOfName?

/-! ## Joining -/

/-- Whether a path starts at the root of the file system. -/
def isAbsolute (path : String) : Bool := path.toList.head? == some '/'

/-- A path inside a directory. An absolute path does not depend on the directory. -/
def join (directory path : String) : String :=
  if isAbsolute path || directory = "" then path
  else if endsInSlash directory then directory ++ path
  else directory ++ "/" ++ path

/-- The paths of the directories in which lies what a path names, the nearest first. -/
def parents (path : String) : List String :=
  let top := if isAbsolute path then "/" else ""
  (names path).dropLast.foldl (fun paths name => join (paths.headD top) name :: paths) []

end SchemaForge.Path
