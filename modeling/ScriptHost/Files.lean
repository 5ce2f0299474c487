import ScriptHost.Text.Quoted
import ScriptHost.Value.Convert

/-!
# Files

The files that a program can see and change, as texts by path.  Paths are compared after they
have been made absolute, so the same file can be named in several ways.  A directory is
whatever some file lies in, and the working directory in any case.
-/

namespace ScriptHost

/-- Texts by absolute path, and the directory that relative paths start from. -/
structure Files where
  directory : List String
  entries : List (List String × String)

/-- Why a file cannot be read or written. -/
inductive FileError where
  | isDirectory (path : String)
  | notFound (path : String)
  | notDirectory (path : String)
  deriving DecidableEq

namespace FileError

/-- How the failure is reported. -/
def kind : FileError → FailureKind
  | .isDirectory _ => .isDirectory
  | .notFound _ => .notFound
  | .notDirectory _ => .notDirectory

/-- The wording of the failure. -/
def message : FileError → String
  | .isDirectory path => "[Errno 21] Is a directory: " ++ Text.quotedString path
  | .notFound path => "[Errno 2] No such file or directory: " ++ Text.quotedString path
  | .notDirectory path => "[Errno 20] Not a directory: " ++ Text.quotedString path

end FileError

namespace Files

/-- The names in a path, without those that lead nowhere. -/
def components (path : String) : List String :=
  (path.splitOn "/").filter fun s => s ≠ "" ∧ s ≠ "."

/-- A path in its short form. -/
def shortPath (path : String) : String :=
  let body := "/".intercalate (components path)
  if path.startsWith "/" then "/" ++ body
  else if body.isEmpty then "." else body

/-- Follows names from a directory. -/
def follow : List String → List String → List String
  | place, [] => place
  | place, name :: rest =>
    if name = ".." then follow place.dropLast rest else follow (place ++ [name]) rest

/-- A path from the root. -/
def absolute (fs : Files) (path : String) : List String :=
  follow (if path.startsWith "/" then [] else fs.directory) (components path)

/-- A path from the root as it is written. -/
def written (path : List String) : String := "/" ++ "/".intercalate path

/-- The file that a path from the root leads to. -/
def find? (fs : Files) (path : List String) : Option String := fs.entries.lookup path

/-- Whether a path from the root leads to a directory. -/
def isDirectory (fs : Files) (path : List String) : Bool :=
  path.isPrefixOf fs.directory ||
    fs.entries.any fun entry => path.isPrefixOf entry.1 && path ≠ entry.1

/-- The text of a file; none if there is no such file. -/
def read? (fs : Files) (path : String) : Except FileError (Option String) :=
  match fs.find? (fs.absolute path) with
  | some text => .ok (some text)
  | none => if fs.isDirectory (fs.absolute path) then .error (.isDirectory path) else .ok none

/-- Makes a file hold a text. -/
def write (fs : Files) (path text : String) : Except FileError Files :=
  let place := fs.absolute path
  if fs.isDirectory place then .error (.isDirectory path)
  else if (fs.find? place.dropLast).isSome then .error (.notDirectory path)
  else if path.isEmpty || !fs.isDirectory place.dropLast then .error (.notFound path)
  else .ok { fs with entries := (place, text) :: fs.entries.filter fun entry => entry.1 ≠ place }

/-- The files of a working directory. -/
def ofList (directory : String) (texts : List (String × String)) : Files :=
  let fs : Files := ⟨components directory, []⟩
  { fs with entries := texts.map fun (path, text) => (fs.absolute path, text) }

end Files
end ScriptHost
