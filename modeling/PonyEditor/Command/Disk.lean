import PonyEditor.Text.Path

/-!
# Files

What a command needs of a file system: the text of a file, and the one absolute path that a path
stands for.  The operations run in any monad, so the same command reads a real disk or a folder
held in memory.
-/

namespace PonyEditor
namespace Command

/-- Why a file has no text. -/
inductive ReadFailure where
  | notFound
  | denied
  | notText
  /-- The path leads to a folder. -/
  | isFolder
  /-- The path leads on from something that is no folder. -/
  | notFolder
  | nameTooLong
  | other (reason : String)
  deriving DecidableEq, Repr

/-- The reason in words, for the file at a path. -/
def ReadFailure.message (path : String) : ReadFailure → String
  | notFound => s!"cannot find file '{path}'"
  | denied => s!"permission denied reading '{path}'"
  | notText => s!"'{path}' is not valid UTF-8"
  | isFolder => s!"error reading '{path}': Is a directory (os error 21)"
  | notFolder => s!"error reading '{path}': Not a directory (os error 20)"
  | nameTooLong => s!"error reading '{path}': File name too long (os error 36)"
  | other reason => s!"error reading '{path}': {reason}"

/-- Access to files. -/
structure Disk (m : Type → Type) where
  /-- The text of the file at a path. -/
  read : String → m (Except ReadFailure String)
  /-- The absolute path without links and dots that a path stands for; `none` if it stands for
  nothing. -/
  resolve : String → m (Option Path)

end Command
end PonyEditor
