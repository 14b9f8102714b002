import SicMachine.TextFile

/-!
Where a path leads in a tree of files. A path is a row of names with slashes
between them, followed from the root if it begins with a slash and from the
working directory otherwise. An empty name and a single dot stay where they
are, two dots go up; every name in front of another one has to lead to a
directory.
-/
namespace SicMachine

/-- Files with contents of a type. Directories are what stands above a file or above the working
directory. -/
structure FileTree (α : Type) where
  /-- The names on the way from the root to the working directory. -/
  workingDirectory : List String
  /-- Each file with the names on its way from the root. -/
  files : List (List String × α)

namespace FileTree

/-- Names are at most as many bytes. -/
def nameLimit : Nat := 255

/-- Paths are fewer bytes. -/
def pathLimit : Nat := 4096

/-- The names of a path, after a name whose characters come last first. -/
def namesFrom : List Char → List Char → List String
  | done, [] => [String.ofList done.reverse]
  | done, '/' :: rest => String.ofList done.reverse :: namesFrom [] rest
  | done, c :: rest => namesFrom (c :: done) rest

def names (path : String) : List String := namesFrom [] path.toList

/-- A place in the tree. -/
inductive Place (α : Type) where
  | directory (way : List String)
  | file (content : α)

variable {α : Type}

def hasDirectory (tree : FileTree α) (way : List String) : Bool :=
  way.isPrefixOf tree.workingDirectory || tree.files.any fun file => way.isPrefixOf file.1

/-- The place behind a name. -/
def follow (tree : FileTree α) (place : Place α) (name : String) : Except FileError (Place α) :=
  match place with
  | .file _ => .error .notDirectory
  | .directory way =>
    if name == "" || name == "." then .ok (.directory way)
    else if name == ".." then .ok (.directory way.dropLast)
    else if nameLimit < name.utf8ByteSize then .error .nameTooLong
    else
      match tree.files.lookup (way ++ [name]) with
      | some content => .ok (.file content)
      | none =>
        if tree.hasDirectory (way ++ [name]) then .ok (.directory (way ++ [name]))
        else .error .missing

/-- The contents of the file to which a path leads. -/
def find (tree : FileTree α) (path : String) : Except FileError α :=
  if path == "" then .error .missing
  else if pathLimit ≤ path.utf8ByteSize then .error .nameTooLong
  else
    let start := if path.front? == some '/' then [] else tree.workingDirectory
    match (names path).foldlM tree.follow (.directory start) with
    | .error error => .error error
    | .ok (.directory _) => .error .isDirectory
    | .ok (.file content) => .ok content

end FileTree

end SicMachine
