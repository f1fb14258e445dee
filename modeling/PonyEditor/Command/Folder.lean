import PonyEditor.Command.Disk
import PonyEditor.Text.Lines

/-!
# Folders in memory

A folder with files and folders in it, as a disk for commands.  A path is followed name by name:
every name before the last must be a folder that is there, and two dots go up.  Nothing is known
of the folders around it but that they are there.
-/

namespace PonyEditor
namespace Command

/-- A file or a folder. -/
inductive Entry where
  | file (bytes : ByteArray)
  | folder

/-- The files and folders below a folder, each under the names that lead to it. -/
structure Folder where
  files : List (List String × ByteArray) := []
  folders : List (List String) := []

/-- A place that a path leads to. -/
inductive Place where
  /-- The folder itself, or what the names lead to from it. -/
  | inside (names : List String)
  /-- A folder around it. -/
  | around
  /-- The top of the file system. -/
  | root
  deriving DecidableEq, Repr

namespace Folder

/-- The names in a path, one for each piece between slashes. -/
def pieces (path : String) : List String := (Text.splitOn '/' path.toList).map String.ofList

/-- The names that lead to an entry, given as a path from the folder. -/
def names (path : String) : List String := (pieces path).filter fun name => name ≠ "" ∧ name ≠ "."

/-- The folder with one more file; the folders that lead to it come with it. -/
def addFile (f : Folder) (path : String) (bytes : ByteArray) : Folder :=
  { f with files := (names path, bytes) :: f.files }

/-- The folder with one more folder; the folders that lead to it come with it. -/
def addFolder (f : Folder) (path : String) : Folder :=
  { f with folders := names path :: f.folders }

/-- What some names lead to. -/
def entry? (f : Folder) (names : List String) : Option Entry :=
  match f.files.lookup names with
  | some bytes => some (.file bytes)
  | none =>
    if names = [] || f.folders.any names.isPrefixOf || f.files.any fun (path, _) =>
        names.isPrefixOf path then some .folder
    else none

/-- Whether a place is a file. -/
def isFile (f : Folder) : Place → Bool
  | .inside names => match f.entry? names with
    | some (.file _) => true
    | _ => false
  | _ => false

/-- The most bytes a name can have. -/
def longestName : Nat := 255

/-- Follows one name from a place. -/
def follow (f : Folder) (place : Place) (name : String) : Except ReadFailure Place :=
  if f.isFile place then .error .notFolder
  else if name = "" || name = "." then .ok place
  else if name = ".." then
    match place with
    | .inside [] => .ok .around
    | .inside names => .ok (.inside names.dropLast)
    | place => .ok place
  else if longestName < name.utf8ByteSize then .error .nameTooLong
  else
    match place with
    | .inside names =>
      if (f.entry? (names ++ [name])).isSome then .ok (.inside (names ++ [name]))
      else .error .notFound
    | _ => .error .notFound

/-- The place a path leads to. -/
def find (f : Folder) (path : String) : Except ReadFailure Place :=
  if path = "" then .error .notFound
  else
    match pieces path with
    | "" :: rest => rest.foldlM f.follow .root
    | names => names.foldlM f.follow (.inside [])

/-- The most bytes the path of a file to read can have. -/
def longestPath : Nat := 4095

/-- The text of the file at a path. -/
def read (f : Folder) (path : String) : Except ReadFailure String := do
  if longestPath < path.utf8ByteSize then throw .nameTooLong
  match ← f.find path with
  | .inside names =>
    match f.entry? names with
    | some (.file bytes) =>
      match String.fromUTF8? bytes with
      | some text => return text
      | none => throw .notText
    | _ => throw .isFolder
  | _ => throw .isFolder

/-- The absolute path of what a path leads to.  Where the folder itself lies is not known, so a
slash stands for the names that lead to it: a part that no written path has. -/
def resolve (f : Folder) (path : String) : Option Path :=
  match f.find path with
  | .ok (.inside names) => some ⟨true, ['/'] :: names.map String.toList⟩
  | .ok _ => some ⟨true, []⟩
  | .error _ => none

/-- The folder as the disk of a command. -/
def disk (f : Folder) : Disk Id where
  read path := f.read path
  resolve path := f.resolve path

end Folder
end Command
end PonyEditor
