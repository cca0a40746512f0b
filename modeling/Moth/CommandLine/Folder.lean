/-!
# Folders

Paths, and reading a file in a folder.  A folder is given by its files; the folders
inside it are those that the paths of its files pass through.
-/

namespace Moth

/-- Where a path starts.  Two slashes in front may mean another root than one, and are
kept; three or more mean the same as one. -/
inductive PathStart where
  | here | root | otherRoot
deriving DecidableEq, Repr

def PathStart.ofSlashes : Nat → PathStart
  | 0 => here
  | 2 => otherRoot
  | _ => root

/-- A path, from the root of the file system or from the current folder. -/
structure Path where
  start : PathStart
  parts : List String
deriving DecidableEq, Repr

inductive FileError where
  | missing | isFolder | notFolder
  | other (reason : String)
deriving DecidableEq, Repr

namespace FileError

def reason : FileError → String
  | missing => "No such file or directory"
  | isFolder => "Is a directory"
  | notFolder => "Not a directory"
  | other reason => reason

end FileError

namespace Path

/-- The parts between slashes; empty ones and single dots say nothing. -/
def ofText (text : String) : Path where
  start := .ofSlashes (text.toList.takeWhile (· = '/')).length
  parts := (splitAtSlashes text.toList).map String.ofList |>.filter
    fun part => part ≠ "" && part ≠ "."
where
  splitAtSlashes : List Char → List (List Char)
    | [] => [[]]
    | c :: rest =>
      if c = '/' then [] :: splitAtSlashes rest
      else
        match splitAtSlashes rest with
        | [] => [[c]]
        | part :: parts => (c :: part) :: parts

/-- The text of a path, the current folder being written as `here`. -/
def display (here : String) (path : Path) : String :=
  let parts := "/".intercalate path.parts
  match path.start with
  | .root => "/" ++ parts
  | .otherRoot => "//" ++ parts
  | .here => if path.parts.isEmpty then here else here ++ "/" ++ parts

end Path

/-- The files of a folder with the parts of their paths. -/
structure Folder where
  files : List (List String × ByteArray)

namespace Folder

def file? (folder : Folder) (parts : List String) : Option ByteArray :=
  folder.files.lookup parts

/-- Whether the parts lead to the folder itself or to one inside it. -/
def isFolder (folder : Folder) (parts : List String) : Bool :=
  parts.isEmpty || folder.files.any fun (path, _) =>
    parts.isPrefixOf path && parts.length < path.length

/-- Follows the parts of a path from a place in the folder, given by its own parts;
`none` is a place outside, of which nothing is known but the folders on the way. -/
def follow (folder : Folder) : Option (List String) → List String → Except FileError ByteArray
  | none, [] => .error .isFolder
  | none, part :: rest => if part = ".." then follow folder none rest else .error .missing
  | some place, [] =>
    match folder.file? place with
    | some bytes => .ok bytes
    | none => .error (if folder.isFolder place then .isFolder else .missing)
  | some place, part :: rest =>
    if (folder.file? place).isSome then .error .notFolder
    else if !folder.isFolder place then .error .missing
    else if part ≠ ".." then follow folder (some (place ++ [part])) rest
    else if place.isEmpty then follow folder none rest
    else follow folder (some place.dropLast) rest

def read (folder : Folder) (path : Path) : Except FileError ByteArray :=
  folder.follow (if path.start = .here then some [] else none) path.parts

end Folder

end Moth
